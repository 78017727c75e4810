import Connexa.Keystore.Filesystem.Commit
import Mathlib.Logic.Relation

/-!
# Crashes during a batch

A crash at any point of a commit, and any number of crashes during the
recoveries after it, leave either all of the batch or none of it.
-/

namespace Connexa.Keystore.Filesystem

open HashMap Machine

variable {codec : Codec} {d d' : Disk} {O N : Contents}

/-- A store directory without a journal or a commit record, in which all that
is visible is also safely on disk. -/
structure Settled (d : Disk) : Prop where
  storeDir : d.storeDir = true
  workDir : d.workDir = true
  rest : AtRest true d.live d

/-- Recovery is started any number of times, and each time crashes at some
point. -/
def Interrupted (codec : Codec) : Disk → Disk → Prop :=
  Relation.ReflTransGen fun d d' =>
    ∃ t, (machine false).Visits (recover codec).run d t ∧ Crash t d'

/-- Recovery leads to `O` or to `N`. -/
def Recoverable (codec : Codec) (O N : Contents) (d : Disk) : Prop :=
  d.storeDir = true ∧ d.workDir = true ∧
    (Undoable codec true O d ∨ Committed codec true O N d ∨
      Undoable codec true N d)

theorem Recoverable.of_crash (h : Recoverable codec O N d)
    (hcrash : Crash d d') : Recoverable codec O N d' := by
  obtain ⟨hstore, hwork, hcases⟩ := h
  refine ⟨hcrash.storeDir.trans hstore, hcrash.workDir.trans hwork, ?_⟩
  rcases hcases with hundo | hcommitted | hundo
  · exact Or.inl (hundo.of_crash hcrash)
  · rcases hcommitted.of_crash hcrash with hundo | hcommitted
    · exact Or.inl hundo
    · exact Or.inr (Or.inl hcommitted)
  · exact Or.inr (Or.inr (hundo.of_crash hcrash))

theorem Undoing.recoverable_left {n : ℕ}
    (h : Undoing codec true false n O d) : Recoverable codec O N d :=
  ⟨h.1.storeDir rfl, h.1.workDir rfl, Or.inl h.2⟩

theorem Undoing.recoverable_right {n : ℕ}
    (h : Undoing codec true false n N d) : Recoverable codec O N d :=
  ⟨h.1.storeDir rfl, h.1.workDir rfl, Or.inr (Or.inr h.2)⟩

theorem Cleaning.recoverable {n : ℕ}
    (h : Cleaning codec true false n O N d) : Recoverable codec O N d :=
  ⟨h.1.storeDir rfl, h.1.workDir rfl, Or.inr (Or.inl h.2)⟩

theorem Committing.recoverable {n : ℕ}
    (h : Committing codec true false n O N d) : Recoverable codec O N d := by
  rcases h with (hundo | hclean) | hclean
  · exact hundo.recoverable_left
  · exact hclean.recoverable
  · exact hclean.undoing.recoverable_right

theorem AtRest.settled {n : ℕ} (h : AtRest true O d)
    (hstanding : Standing false n d) : Settled d ∧ d.live = O := by
  refine ⟨⟨hstanding.storeDir rfl, hstanding.workDir rfl, ?_⟩, h.live_eq⟩
  rw [h.live_eq]
  exact h

/-- Without crashes, recovery succeeds and settles the store. -/
theorem Recoverable.safe_recover (h : Recoverable codec O N d) :
    (machine false).Safe (Recoverable codec O N)
      (fun r t => r = .ok () ∧ Settled t ∧ (t.live = O ∨ t.live = N))
      (recover codec).run d := by
  obtain ⟨hstore, hwork, hcases⟩ := h
  have hstanding : Standing false d.commits d := ⟨fun _ => hwork, fun _ => hstore, rfl⟩
  rcases hcases with hundo | hcommitted | hundo
  · refine (Filesystem.safe_recover ⟨hstanding, hundo⟩).mono
      (fun _ h => h.recoverable_left) ?_
    rintro (e | _) t ht hr
    · exact absurd hr.1 (by decide)
    · obtain ⟨hsettled, hlive⟩ := AtRest.settled hr ht.1
      exact ⟨rfl, hsettled, Or.inl hlive⟩
  · refine (safe_recover_of_committed ⟨hstanding, hcommitted⟩).mono
      (fun _ h => h.recoverable) ?_
    rintro (e | _) t ht hr
    · exact absurd hr.1 (by decide)
    · obtain ⟨hsettled, hlive⟩ := AtRest.settled hr ht.1
      exact ⟨rfl, hsettled, Or.inr hlive⟩
  · refine (Filesystem.safe_recover ⟨hstanding, hundo⟩).mono
      (fun _ h => h.recoverable_right) ?_
    rintro (e | _) t ht hr
    · exact absurd hr.1 (by decide)
    · obtain ⟨hsettled, hlive⟩ := AtRest.settled hr ht.1
      exact ⟨rfl, hsettled, Or.inr hlive⟩

theorem Recoverable.of_interrupted (h : Recoverable codec O N d)
    (hinterrupted : Interrupted codec d d') : Recoverable codec O N d' := by
  induction hinterrupted with
  | refl => exact h
  | tail _ hstep ih =>
      obtain ⟨t, hvisits, hcrash⟩ := hstep
      exact (ih.safe_recover.visits hvisits).of_crash hcrash

/-- A crash, then interrupted recoveries, then a recovery that ends. -/
theorem Recoverable.recovers {c c' u : Disk} {r : Except IoError Unit}
    (h : Recoverable codec O N d) (hcrash : Crash d c)
    (hinterrupted : Interrupted codec c c')
    (hfinishes : (machine false).Finishes (recover codec).run c' r u) :
    r = .ok () ∧ Settled u ∧ (u.live = O ∨ u.live = N) :=
  (((h.of_crash hcrash).of_interrupted hinterrupted).safe_recover.finishes
    hfinishes).2

/-- Batches are atomic and durable: a crash at any point of `commit_batch`,
followed by recoveries that crash any number of times before one of them ends,
leaves the entries from before the batch or those with all of it, and the
latter if `commit_batch` had returned. -/
theorem commitBatch_crash_atomic
    (hcodec : ∀ j bytes, codec.encodeJournal j = .ok bytes →
      codec.decodeJournal bytes = .ok j)
    (hd : Settled d) (entries : List EncryptedEntry)
    (afterReplace : ℕ → Except IoError Unit) :
    (∀ t c c' r u,
      (machine false).Visits (commitBatch codec entries afterReplace).run d t →
      Crash t c → Interrupted codec c c' →
      (machine false).Finishes (recover codec).run c' r u →
      r = .ok () ∧ Settled u ∧
        (u.live = d.live ∨ u.live = applyBatch codec entries d.live)) ∧
    ∀ t, (machine false).Finishes
        (commitBatch codec entries afterReplace).run d (.ok ()) t →
      t.live = applyBatch codec entries d.live ∧
      ∀ c c' r u, Crash t c → Interrupted codec c c' →
        (machine false).Finishes (recover codec).run c' r u →
        r = .ok () ∧ Settled u ∧
          u.live = applyBatch codec entries d.live := by
  have hresting : Resting true false d.commits d.live d :=
    ⟨⟨fun _ => hd.workDir, fun _ => hd.storeDir, rfl⟩, hd.rest, hd.workDir⟩
  have hsafe := safe_commitBatch hcodec hresting entries afterReplace
  constructor
  · intro t c c' r u hvisits hcrash hinterrupted hfinishes
    exact (hsafe.visits hvisits).recoverable.recovers hcrash hinterrupted
      hfinishes
  · intro t hfinished
    obtain ⟨-, hclean⟩ := hsafe.finishes hfinished
    refine ⟨hclean.2.live_eq, ?_⟩
    intro c c' r u hcrash hinterrupted hfinishes
    obtain ⟨hr, hsettled, hlive⟩ :=
      hclean.recoverable.recovers hcrash hinterrupted hfinishes
    exact ⟨hr, hsettled, hlive.elim id id⟩

/-! ## Sample stores -/

/-- A store directory with nothing in it. -/
def emptyStore : Disk where
  outsideDir := true
  storeDir := true
  workDir := true
  store := Dir.synced ∅
  work := Dir.synced ∅
  staging := fun _ => Dir.synced ∅
  data := fun _ => []
  synced := fun _ => false
  nextIno := 0
  fresh := fun _ _ => rfl
  renames := []

theorem settled_emptyStore : Settled emptyStore where
  storeDir := rfl
  workDir := rfl
  rest :=
    { shown := by
        intro V hV label
        rw [Dir.sees_synced hV]
        exact ⟨rfl, nofun⟩
      absent := by
        intro W hW
        rw [Dir.sees_synced hW]
        exact ⟨rfl, rfl⟩ }

def sampleEntry : EncryptedEntry where
  metadata :=
    { label := "a"
      keyType := .ed25519
      version := 1
      createdAt := ⟨0, SystemTime.epoch_bounded⟩
      expiresAt := none
      publicKey := []
      label_lt := labelBytes_a_lt
      publicKey_lt := by decide }
  ciphertext := []

/-- The journal of a batch with the sample entry on the empty store. -/
def sampleJournal : Journal := ⟨1, [("a", none)]⟩

/-- A short text in CBOR. -/
def cborText (text : String) : Bytes :=
  UInt8.ofNat (0x60 + (labelBytes text).length) :: labelBytes text

/-- A few bytes in CBOR. -/
def cborBytes (bytes : Bytes) : Bytes :=
  UInt8.ofNat (0x40 + bytes.length) :: bytes

/-- An entry like the sample entry. -/
def entryBytes (label : String) (ciphertext : Bytes) : Bytes :=
  [0xa2] ++ cborText "metadata" ++ [0xa6] ++
    cborText "label" ++ cborText label ++
    cborText "key_type" ++ cborText "Ed25519" ++
    cborText "version" ++ [0x01] ++
    cborText "created_at" ++ [0xa2] ++
      cborText "secs_since_epoch" ++ [0x00] ++
      cborText "nanos_since_epoch" ++ [0x00] ++
    cborText "expires_at" ++ [0xf6] ++
    cborText "public_key" ++ cborBytes [] ++
  cborText "ciphertext" ++ cborBytes ciphertext

def sampleEntryBytes : Bytes :=
  entryBytes "a" []

def sampleJournalBytes : Bytes :=
  [0xa2] ++ cborText "version" ++ [0x01] ++
    cborText "originals" ++ [0x81, 0x82] ++ cborText "a" ++ [0xf6]

/-- CBOR on the sample entry and its journal. -/
def sampleCodec : Codec where
  encodeEntry := fun e =>
    if e = sampleEntry then .ok sampleEntryBytes else .error "not the sample"
  decodeEntry := fun bytes =>
    if bytes = sampleEntryBytes then .ok sampleEntry else .error "not the sample"
  encodeJournal := fun j =>
    if j = sampleJournal then .ok sampleJournalBytes else .error "not the sample"
  decodeJournal := fun bytes =>
    if bytes = sampleJournalBytes then .ok sampleJournal
    else .error "not the sample"

theorem sampleCodec_roundtrip (j : Journal) (bytes : Bytes)
    (h : sampleCodec.encodeJournal j = .ok bytes) :
    sampleCodec.decodeJournal bytes = .ok j := by
  simp only [sampleCodec] at h ⊢
  split at h
  · next hj =>
    cases h
    rw [if_pos rfl, hj]
  · cases h

/-- A process crash loses nothing. -/
theorem Crash.refl (d : Disk) : Crash d d :=
  ⟨rfl, rfl, rfl, Dir.Crash.refl _, Dir.Crash.refl _,
    fun _ => Dir.Crash.refl _, fun _ _ => rfl, rfl, rfl⟩

/-- A new version of the sample entry. -/
def renewedEntry : EncryptedEntry :=
  { sampleEntry with ciphertext := [1] }

/-- An entry under another label. -/
def otherEntry : EncryptedEntry where
  metadata := { sampleEntry.metadata with label := "b", label_lt := labelBytes_b_lt }
  ciphertext := []

/-- The journal of a batch for both labels when the sample entry is stored. -/
def renewingJournal : Journal :=
  ⟨1, [("a", some sampleEntryBytes), ("b", none)]⟩

/-- The journal of a batch with the other entry. -/
def otherJournal : Journal := ⟨1, [("b", none)]⟩

/-- 24 to 255 bytes in CBOR, as a sequence of numbers. -/
def cborNumbers (bytes : Bytes) : Bytes :=
  [0x98, UInt8.ofNat bytes.length] ++
    bytes.flatMap fun b => if b < 24 then [b] else [0x18, b]

def renewingJournalBytes : Bytes :=
  [0xa2] ++ cborText "version" ++ [0x01] ++ cborText "originals" ++ [0x82] ++
    ([0x82] ++ cborText "a" ++ cborNumbers sampleEntryBytes) ++
    ([0x82] ++ cborText "b" ++ [0xf6])

def otherJournalBytes : Bytes :=
  [0xa2] ++ cborText "version" ++ [0x01] ++
    cborText "originals" ++ [0x81, 0x82] ++ cborText "b" ++ [0xf6]

/-- CBOR, with these entries and journals as well. -/
def batchCodec : Codec where
  encodeEntry := fun e =>
    if e = renewedEntry then .ok (entryBytes "a" [1])
    else if e = otherEntry then .ok (entryBytes "b" [])
    else sampleCodec.encodeEntry e
  decodeEntry := fun bytes =>
    if bytes = entryBytes "a" [1] then .ok renewedEntry
    else if bytes = entryBytes "b" [] then .ok otherEntry
    else sampleCodec.decodeEntry bytes
  encodeJournal := fun j =>
    if j = renewingJournal then .ok renewingJournalBytes
    else if j = otherJournal then .ok otherJournalBytes
    else sampleCodec.encodeJournal j
  decodeJournal := fun bytes =>
    if bytes = renewingJournalBytes then .ok renewingJournal
    else if bytes = otherJournalBytes then .ok otherJournal
    else sampleCodec.decodeJournal bytes

theorem batchCodec_roundtrip (j : Journal) (bytes : Bytes)
    (h : batchCodec.encodeJournal j = .ok bytes) :
    batchCodec.decodeJournal bytes = .ok j := by
  simp only [batchCodec] at h ⊢
  split_ifs at h with hrenewing hother
  · cases h
    rw [if_pos rfl, hrenewing]
  · cases h
    rw [if_neg (by decide +kernel), if_pos rfl, hother]
  · have hbytes : bytes = sampleJournalBytes := by
      simp only [sampleCodec] at h
      split at h <;> cases h
      rfl
    rw [if_neg (by rw [hbytes]; decide +kernel),
      if_neg (by rw [hbytes]; decide +kernel)]
    exact sampleCodec_roundtrip j bytes h

/-- A store directory with the sample entry in it. -/
def sampleStore : Disk :=
  { emptyStore with
    store := Dir.synced ((∅ : HashMap String Node).insert "a" (.file 0))
    data := fun _ => sampleEntryBytes
    synced := fun i => decide (i = 0)
    nextIno := 1
    fresh := fun _ hi => decide_eq_false (Nat.ne_of_gt hi) }

theorem settled_sampleStore : Settled sampleStore where
  storeDir := rfl
  workDir := rfl
  rest :=
    { shown := by
        intro V hV label
        rw [Dir.sees_synced hV]
        refine ⟨rfl, ?_⟩
        intro i hi
        rw [HashMap.lookup_insert] at hi
        split_ifs at hi
        · cases hi
          rfl
        · cases hi
      absent := by
        intro W hW
        rw [Dir.sees_synced hW]
        exact ⟨rfl, rfl⟩ }

/-! ## A crash during a batch -/

/-- A batch that renews the sample entry, twice, and adds another one. -/
def renewingBatch : StoreM Unit :=
  commitBatch batchCodec [otherEntry, sampleEntry, renewedEntry] fun _ => .ok ()

/-- The disk after the first steps of that batch. -/
def renewingCrash (steps : ℕ) : Disk :=
  (files false).runFor steps renewingBatch.run none sampleStore

/-- The disk after recovery from a crash at that point. -/
def renewingRecovered (steps : ℕ) : Disk :=
  ((files false).run (recover batchCodec).run [] none (renewingCrash steps)).2

/-- A crash when one entry was replaced and the other was not. -/
theorem commitBatch_crash_atomic_renewingBatch :
    (renewingCrash 23).live "a" = some (.file (entryBytes "a" [1])) ∧
      (renewingCrash 23).live "b" = none ∧
      Settled (renewingRecovered 23) ∧
      ((renewingRecovered 23).live = sampleStore.live ∨
        (renewingRecovered 23).live = applyBatch batchCodec
          [otherEntry, sampleEntry, renewedEntry] sampleStore.live) := by
  refine ⟨by decide +kernel, by decide +kernel, ?_⟩
  have hvisits := Exec.visits_runFor 23 renewingBatch.run
    (show (files false).allowed none from Or.inr rfl) sampleStore
  have hfinishes := Exec.finishes_run (recover batchCodec).run []
    (fun _ h => by cases h) (show (files false).allowed none from Or.inr rfl)
    (renewingCrash 23)
  exact ((commitBatch_crash_atomic batchCodec_roundtrip settled_sampleStore
    [otherEntry, sampleEntry, renewedEntry] fun _ => .ok ()).1 _ _ _ _ _ hvisits
    (Crash.refl _) Relation.ReflTransGen.refl hfinishes).2

/-! ## A removal that was not flushed

`recover` flushes `.tmp` only.  When `remove` is killed before it has flushed
the store directory, the entry is gone for every reader, and still comes back
if a later batch loses its updates. -/

/-- The disk after `remove` was killed between unlinking and flushing, and
after the recovery of the next access. -/
def unflushedRemoval : Disk :=
  ((files false).run (recover batchCodec).run [] none
    ((files false).runFor 12 (remove batchCodec "a").run none sampleStore)).2

/-- A batch on that disk, up to its first replacement. -/
def interruptedBatch : Disk :=
  (files false).runFor 17
    (commitBatch batchCodec [otherEntry] fun _ => .ok ()).run none unflushedRemoval

/-- A power loss that keeps nothing unsynced in the store directory. -/
def powerLoss (d : Disk) : Disk :=
  { d with store := Dir.synced d.store.durable }

theorem crash_powerLoss (d : Disk) : Crash d (powerLoss d) :=
  ⟨rfl, rfl, rfl, ⟨0, 0, le_rfl, Nat.zero_le _, rfl⟩, Dir.Crash.refl _,
    fun _ => Dir.Crash.refl _, fun _ _ => rfl, rfl, rfl⟩

/-- The disk after recovery from that power loss. -/
def recoveredRemoval : Disk :=
  ((files false).run (recover batchCodec).run [] none
    (powerLoss interruptedBatch)).2

/-- No crash can bring back a journal or a commit record, and yet the batch
ends in neither of the two states: the removed entry is there again. -/
theorem unflushed_removal_comes_back :
    unflushedRemoval.storeDir = true ∧ unflushedRemoval.workDir = true ∧
      (∀ W, unflushedRemoval.work.Sees true W →
        NoJournal W ∧ W.lookup .committed = none) ∧
      (∀ j bytes, batchCodec.encodeJournal j = .ok bytes →
        batchCodec.decodeJournal bytes = .ok j) ∧
      validateLabel otherEntry.metadata.label = .ok () ∧
      (machine false).Visits
        (commitBatch batchCodec [otherEntry] fun _ => .ok ()).run
        unflushedRemoval interruptedBatch ∧
      Crash interruptedBatch (powerLoss interruptedBatch) ∧
      (machine false).Finishes (recover batchCodec).run
        (powerLoss interruptedBatch) (.ok ()) recoveredRemoval ∧
      recoveredRemoval.live ≠ unflushedRemoval.live ∧
      recoveredRemoval.live ≠
        applyBatch batchCodec [otherEntry] unflushedRemoval.live := by
  have hnone : (files false).allowed none := Or.inr rfl
  have hback : (recoveredRemoval.live "a").isSome = true := by decide +kernel
  refine ⟨rfl, rfl, ?_, batchCodec_roundtrip, rfl,
    Exec.visits_runFor 17 _ hnone unflushedRemoval, crash_powerLoss _, ?_, ?_, ?_⟩
  · have hflushed : unflushedRemoval.work.pending.length = 0 := by decide +kernel
    have hjournal : unflushedRemoval.work.durable.lookup .journal = none := by
      decide +kernel
    have hcommitted : unflushedRemoval.work.durable.lookup .committed = none := by
      decide +kernel
    rintro W ⟨k, -, rfl⟩
    rw [Dir.viewAt, List.length_eq_zero_iff.mp hflushed, List.take_nil]
    exact ⟨hjournal, hcommitted⟩
  · have hfinishes := Exec.finishes_run (recover batchCodec).run []
      (fun _ h => by cases h) hnone (powerLoss interruptedBatch)
    exact hfinishes
  · intro hlive
    rw [hlive] at hback
    exact absurd hback (by decide +kernel)
  · intro hlive
    rw [hlive] at hback
    exact absurd hback (by decide +kernel)

end Connexa.Keystore.Filesystem
