import Mathlib.Data.List.Basic
import Connexa.Keystore.Entry

/-!
# The paths of the entries

`std::path` as far as the store uses it: how a string splits into a volume, a
root and components, and what `Path::join` makes of two paths.  On Windows a
volume is what the standard library calls a prefix.  A label becomes a direct
child of the store directory unless it names a drive.
-/

namespace Connexa.Keystore.Filesystem

inductive Platform where
  | unix
  | windows
  deriving DecidableEq

/-- `std::path::Prefix`. -/
inductive Volume where
  | verbatim (name : String)
  | verbatimUnc (server share : String)
  | verbatimDisk (letter : Char)
  | deviceNs (name : String)
  | unc (server share : String)
  | disk (letter : Char)
  deriving DecidableEq

namespace Volume

def isVerbatim : Volume → Bool
  | verbatim _ => true
  | verbatimUnc _ _ => true
  | verbatimDisk _ => true
  | _ => false

/-- Every volume but a plain drive stands at a root of its own. -/
def hasImplicitRoot : Volume → Bool
  | disk _ => false
  | _ => true

/-- `Prefix::len`: the characters the volume takes up in the path. -/
def len : Volume → ℕ
  | verbatim name => 4 + name.length
  | verbatimUnc server share =>
      8 + server.length + if share.isEmpty then 0 else 1 + share.length
  | verbatimDisk _ => 6
  | deviceNs name => 4 + name.length
  | unc server share =>
      2 + server.length + if share.isEmpty then 0 else 1 + share.length
  | disk _ => 2

end Volume

/-- `std::path::Component` without the volume and the root. -/
inductive Component where
  | curDir
  | parentDir
  | normal (name : String)
  deriving DecidableEq

/-- A path by its parts. -/
structure FilePath where
  volume : Option Volume
  hasRoot : Bool
  components : List Component
  deriving DecidableEq

/-! ## Reading a path -/

def isSep : Platform → Char → Bool
  | .unix, c => c == '/'
  | .windows, c => c == '\\' || c == '/'

/-- The separators of a Windows path, which has only one of them if it is
verbatim. -/
def isSepIn (verbatim : Bool) (c : Char) : Bool :=
  if verbatim then c == '\\' else isSep .windows c

/-- `parse_next_component`: up to the next separator, and behind it. -/
def parseNextComponent (verbatim : Bool) (cs : List Char) :
    String × List Char :=
  (String.ofList (cs.takeWhile fun c => !isSepIn verbatim c),
    (cs.dropWhile fun c => !isSepIn verbatim c).tail)

/-- `parse_drive`. -/
def parseDrive : List Char → Option Char
  | letter :: ':' :: _ => if letter.isAlpha then some letter.toUpper else none
  | _ => none

/-- `parse_drive_exact`: nothing or a separator follows the drive. -/
def parseDriveExact (cs : List Char) : Option Char :=
  match cs.drop 2 with
  | [] => parseDrive cs
  | c :: _ => if isSep .windows c then parseDrive cs else none

/-- The volume of a path that starts with a backslash, a backslash, a question
mark and a backslash; `cs` is the rest. -/
def parseVerbatim (cs : List Char) : Volume :=
  match cs with
  | 'U' :: 'N' :: 'C' :: '\\' :: rest =>
      let (server, rest) := parseNextComponent true rest
      .verbatimUnc server (parseNextComponent true rest).1
  | _ =>
      match parseDriveExact cs with
      | some letter => .verbatimDisk letter
      | none => .verbatim (parseNextComponent true cs).1

/-- The volume of a path that starts with two separators; `cs` is the rest. -/
def parseNetwork (cs : List Char) : Option Volume :=
  let (server, rest) := parseNextComponent false cs
  let (share, _) := parseNextComponent false rest
  if server.isEmpty || share.isEmpty then none else some (.unc server share)

/-- `parse_prefix`. -/
def parseVolume (cs : List Char) : Option Volume :=
  match cs with
  | '\\' :: '\\' :: '?' :: '\\' :: rest => some (parseVerbatim rest)
  | first :: second :: rest =>
      if isSep .windows first && isSep .windows second then
        match rest with
        | '.' :: third :: rest' =>
            if isSep .windows third then
              some (.deviceNs (parseNextComponent false rest').1)
            else parseNetwork rest
        | _ => parseNetwork rest
      else (parseDrive cs).map .disk
  | _ => none

/-- `parse_single_component`. -/
def parseSingleComponent (verbatim : Bool) (cs : List Char) :
    Option Component :=
  if cs = [] then none
  else if cs = ['.'] then if verbatim then some .curDir else none
  else if cs = ['.', '.'] then some .parentDir
  else some (.normal (String.ofList cs))

/-- `include_cur_dir`: a leading dot counts where there is no root. -/
def includeCurDir (sep : Char → Bool) (cs : List Char) : Bool :=
  match cs with
  | ['.'] => true
  | '.' :: c :: _ => sep c
  | _ => false

/-- The root and the components of what follows the volume. -/
def parseRest (volume : Option Volume) (sep : Char → Bool)
    (verbatim : Bool) (cs : List Char) : FilePath :=
  let hasRoot := volume.any Volume.hasImplicitRoot || cs.head?.any sep
  let parsed := (cs.splitOnP sep).filterMap (parseSingleComponent verbatim)
  ⟨volume, hasRoot,
    if !hasRoot && !verbatim && includeCurDir sep cs then .curDir :: parsed
    else parsed⟩

/-- `Path::new(s).components()`. -/
def parsePath (platform : Platform) (s : String) : FilePath :=
  match platform with
  | .unix => parseRest none (isSep .unix) false s.toList
  | .windows =>
      match parseVolume s.toList with
      | none => parseRest none (isSep .windows) false s.toList
      | some volume =>
          parseRest (some volume) (isSepIn volume.isVerbatim) volume.isVerbatim
            (s.toList.drop volume.len)

/-! ## Joining paths -/

/-- One component pushed to a verbatim path, which keeps no dots. -/
def pushVerbatim (components : List Component) : Component → List Component
  | .curDir => components
  | .parentDir =>
      match components.getLast? with
      | some (.normal _) => components.dropLast
      | _ => components
  | .normal name => components ++ [.normal name]

/-- `Path::join`.  A path with a volume or an absolute one replaces the base; a
root without a volume keeps the volume of the base only. -/
def FilePath.join (base path : FilePath) : FilePath :=
  if path.volume.isSome || (base.volume.isNone && path.hasRoot) then path
  else if base.volume.any Volume.isVerbatim then
    { base with
      components := path.components.foldl pushVerbatim
        (if path.hasRoot then [] else base.components) }
  else if path.hasRoot then
    { path with volume := base.volume }
  else
    { base with
      components := base.components ++
        if base.volume.isNone && !base.hasRoot && base.components.isEmpty then
          path.components
        else path.components.filter (· ≠ .curDir) }

/-- `FilesystemKeystore::entry_path`. -/
def entryPath (platform : Platform) (dir : FilePath) (label : String) :
    Except Error FilePath := do
  validateLabel label
  return dir.join (parsePath platform label)

/-- The path that `recover` restores for a label of the journal. -/
def journalPath (platform : Platform) (dir : FilePath) (label : String) :
    Except IoError FilePath := do
  match validateLabel label with
  | .error error => .error (.keystore error)
  | .ok () =>
      if label = ".tmp" then .error (.new .invalidData "invalid journal label")
      else return dir.join (parsePath platform label)

/-- The child of a directory with the given name. -/
def FilePath.child (dir : FilePath) (name : String) : FilePath :=
  { dir with components := dir.components ++ [.normal name] }

/-- The label starts with a drive letter and a colon. -/
def NamesDrive (label : String) : Prop :=
  ∃ letter rest, label.toList = letter :: ':' :: rest ∧ letter.isAlpha = true

/-! ## Labels -/

theorem validateLabel_eq_ok {label : String} (h : validateLabel label = .ok ()) :
    label.toList ≠ [] ∧ label.toList ≠ ['.'] ∧ label.toList ≠ ['.', '.'] ∧
      ∀ c ∈ label.toList, ∀ platform, isSep platform c = false := by
  unfold validateLabel at h
  split at h
  · cases h
  · next hvalid =>
    push Not at hvalid
    obtain ⟨hempty, hdot, hdots, hchars⟩ := hvalid
    refine ⟨?_, ?_, ?_, ?_⟩
    · intro hnil
      apply hempty
      rw [← String.ofList_toList (s := label), hnil]
      rfl
    · intro hone
      apply hdot
      rw [← String.ofList_toList (s := label), hone]
    · intro htwo
      apply hdots
      rw [← String.ofList_toList (s := label), htwo]
    · intro c hc platform
      have hclean : ¬(c == '/' || c == '\\' || c == '\x00') = true :=
        fun hbad => hchars (List.any_eq_true.mpr ⟨c, hc, hbad⟩)
      cases platform <;> simp_all [isSep]

/-- What follows the volume in a label is a single component. -/
theorem parseRest_of_noSep {volume : Option Volume} {sep : Char → Bool}
    {cs : List Char} (hsep : ∀ c ∈ cs, sep c = false)
    (hvolume : volume.any Volume.hasImplicitRoot = false) :
    parseRest volume sep false cs = ⟨volume, false,
      if cs = ['.'] then [.curDir] else (parseSingleComponent false cs).toList⟩ := by
  have hroot : cs.head?.any sep = false := by
    cases cs with
    | nil => rfl
    | cons c rest => exact hsep c List.mem_cons_self
  have hdot : includeCurDir sep cs = decide (cs = ['.']) := by
    unfold includeCurDir
    split
    · rfl
    · next c rest =>
      rw [hsep c (List.mem_cons_of_mem _ List.mem_cons_self)]
      rfl
    · next hne _ =>
      exact (decide_eq_false fun heq => hne heq).symm
  simp only [parseRest, hvolume, hroot, List.splitOnP_eq_singleton hsep, hdot]
  by_cases hone : cs = ['.']
  · subst hone
    simp [parseSingleComponent]
  · simp only [hone, decide_false, Bool.and_false, Bool.false_eq_true, if_false]
    cases hcomponent : parseSingleComponent false cs <;>
      simp [hcomponent]

/-- Without separators a volume can only be a drive. -/
theorem parseVolume_of_noSep {cs : List Char}
    (h : ∀ c ∈ cs, isSep .windows c = false) :
    parseVolume cs = (parseDrive cs).map .disk := by
  unfold parseVolume
  split
  · exact absurd (h '\\' List.mem_cons_self) (by decide)
  · next first second rest _ =>
    rw [h first List.mem_cons_self]
    rfl
  · next _ hshort =>
    cases cs with
    | nil => rfl
    | cons first rest =>
        cases rest with
        | nil => rfl
        | cons second rest => exact absurd rfl (hshort first second rest)

theorem normal_of_parseSingleComponent {cs : List Char} {name : String}
    (h : parseSingleComponent false cs = some (.normal name)) :
    name.toList = cs := by
  unfold parseSingleComponent at h
  split at h
  · cases h
  · split at h
    · cases h
    · split at h
      · cases h
      · cases h
        exact String.toList_ofList

/-- A label that names no drive is read as a single name. -/
theorem parsePath_label {platform : Platform} {label : String}
    (h : validateLabel label = .ok ())
    (hdrive : ¬(platform = .windows ∧ NamesDrive label)) :
    parsePath platform label = ⟨none, false, [.normal label]⟩ := by
  obtain ⟨hempty, hdot, hdots, hsep⟩ := validateLabel_eq_ok h
  have hcomponent : parseSingleComponent false label.toList =
      some (.normal label) := by
    simp [parseSingleComponent, hempty, hdot, hdots, String.ofList_toList]
  have hrest : ∀ platform', parseRest none (isSep platform') false label.toList =
      ⟨none, false, [.normal label]⟩ := by
    intro platform'
    rw [parseRest_of_noSep (fun c hc => hsep c hc platform') rfl, if_neg hdot,
      hcomponent]
    rfl
  cases platform with
  | unix => exact hrest .unix
  | windows =>
      have hvolume : parseVolume label.toList = none := by
        rw [parseVolume_of_noSep fun c hc => hsep c hc .windows,
          Option.map_eq_none_iff]
        unfold parseDrive
        split
        · next letter rest hlabel =>
          rw [if_neg]
          exact fun halpha => hdrive ⟨rfl, letter, rest, hlabel, halpha⟩
        · rfl
      rw [parsePath, hvolume]
      exact hrest .windows

/-- On Windows a label that names a drive is a path of that drive, and what
follows the colon is at most one component. -/
theorem parsePath_drive {label : String} (h : validateLabel label = .ok ())
    (hdrive : NamesDrive label) :
    (parsePath .windows label).volume.isSome = true ∧
      .normal label ∉ (parsePath .windows label).components := by
  obtain ⟨letter, rest, hlabel, halpha⟩ := hdrive
  obtain ⟨-, -, -, hsep⟩ := validateLabel_eq_ok h
  have hvolume : parseVolume label.toList = some (.disk letter.toUpper) := by
    rw [parseVolume_of_noSep fun c hc => hsep c hc .windows, hlabel, parseDrive,
      if_pos halpha]
    rfl
  have hclean : ∀ c ∈ rest, isSepIn false c = false := by
    intro c hc
    refine hsep c ?_ .windows
    rw [hlabel]
    exact List.mem_cons_of_mem _ (List.mem_cons_of_mem _ hc)
  have hparse : parsePath .windows label =
      parseRest (some (.disk letter.toUpper)) (isSepIn false) false rest := by
    rw [parsePath, hvolume, hlabel]
    rfl
  rw [hparse, parseRest_of_noSep hclean rfl]
  refine ⟨rfl, ?_⟩
  intro hmem
  have hshort : label.toList = rest := by
    dsimp only at hmem
    split at hmem
    · cases List.mem_singleton.mp hmem
    · exact normal_of_parseSingleComponent (Option.mem_toList.mp hmem)
  rw [hlabel] at hshort
  have hlength := congrArg List.length hshort
  simp only [List.length_cons] at hlength
  omega

/-! ## Where the entries lie -/

/-- Joining a name makes it a child. -/
theorem join_normal (dir : FilePath) (name : String) :
    dir.join ⟨none, false, [.normal name]⟩ = dir.child name := by
  unfold FilePath.join FilePath.child
  simp only [Option.isSome_none, Bool.and_false, Bool.or_self,
    Bool.false_eq_true, if_false]
  split
  · simp [pushVerbatim]
  · simp

/-- The label is joined to a child of the directory, unless it names a drive on
Windows. -/
theorem join_label {platform : Platform} {dir : FilePath} {label : String}
    (h : validateLabel label = .ok ()) :
    dir.join (parsePath platform label) = dir.child label ↔
      ¬(platform = .windows ∧ NamesDrive label) := by
  constructor
  · rintro hchild ⟨rfl, hdrive⟩
    obtain ⟨hvolume, hmem⟩ := parsePath_drive h hdrive
    apply hmem
    rw [FilePath.join, hvolume, Bool.true_or, if_pos rfl] at hchild
    rw [hchild]
    exact List.mem_append_right _ (List.mem_singleton_self _)
  · intro hdrive
    rw [parsePath_label h hdrive]
    exact join_normal dir label

/-- Both paths that the store builds from an accepted label are the child of
the store directory with that name exactly if the label does not name a drive
on Windows. -/
theorem labels_stay_in_directory (platform : Platform) (dir : FilePath)
    (label : String) (h : validateLabel label = .ok ()) :
    (entryPath platform dir label = .ok (dir.child label) ∧
      (label ≠ ".tmp" →
        journalPath platform dir label = .ok (dir.child label))) ↔
      ¬(platform = .windows ∧ NamesDrive label) := by
  have hentry : entryPath platform dir label =
      .ok (dir.join (parsePath platform label)) := by
    rw [entryPath, h]
    rfl
  have hjournal : label ≠ ".tmp" → journalPath platform dir label =
      .ok (dir.join (parsePath platform label)) := by
    intro hne
    rw [journalPath, h]
    exact if_neg hne
  rw [← join_label h, hentry, Except.ok.injEq]
  constructor
  · exact fun hboth => hboth.1
  · intro hchild
    refine ⟨hchild, fun hne => ?_⟩
    rw [hjournal hne, hchild]

theorem labels_stay_in_directory_colons :
    entryPath .windows (parsePath .windows "D:\\keys") "node:7" =
        .ok ((parsePath .windows "D:\\keys").child "node:7") ∧
      journalPath .unix (parsePath .unix "/var/keys") "C:name" =
        .ok ((parsePath .unix "/var/keys").child "C:name") := by
  constructor
  · refine ((labels_stay_in_directory .windows _ "node:7" ?_).mpr ?_).1
    · rfl
    · rintro ⟨-, letter, rest, hlabel, -⟩
      have hsecond : some 'o' = some ':' := congrArg (fun cs => cs[1]?) hlabel
      exact absurd hsecond (by decide)
  · refine ((labels_stay_in_directory .unix _ "C:name" ?_).mpr ?_).2 ?_
    · rfl
    · exact nofun
    · decide

/-- On Windows the entry of `C:name` lies on drive C, wherever the store is. -/
theorem drive_label_leaves_directory :
    validateLabel "C:name" = .ok () ∧
      entryPath .windows (parsePath .windows "D:\\keys") "C:name" =
        .ok ⟨some (.disk 'C'), false, [.normal "name"]⟩ ∧
      entryPath .windows (parsePath .windows "D:\\keys") "C:name" ≠
        .ok ((parsePath .windows "D:\\keys").child "C:name") := by
  refine ⟨rfl, rfl, ?_⟩
  intro hchild
  have hparts : (⟨some (.disk 'C'), false, [.normal "name"]⟩ : FilePath) =
      (parsePath .windows "D:\\keys").child "C:name" := Except.ok.inj hchild
  exact absurd hparts (by decide)

end Connexa.Keystore.Filesystem
