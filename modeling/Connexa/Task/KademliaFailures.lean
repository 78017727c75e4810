import Connexa.Task.KademliaQueries

/-!
# Failures of DHT queries

The sender of a stream is in the table as long as its query is unfinished, and nothing
but items is sent until then.  So the error of a failed query is the last message of the
stream, unless the stream is full when it comes.
-/

namespace Connexa.KademliaQueries

open HashMap Mpsc

variable {A : Type}

/-! ## Reports -/

theorem unfinished_append {log : List (QueryId × Progress A)} {id id' : QueryId}
    {p : Progress A} :
    Unfinished (log ++ [(id', p)]) id ↔
      Unfinished log id ∧ (id' = id → p.ends = false) := by
  constructor
  · intro h
    constructor
    · intro report hreport
      exact h report (List.mem_append_left _ hreport)
    · intro hid
      exact h (id', p) (List.mem_append_right _ (List.mem_singleton_self _)) hid
  · rintro ⟨hlog, hlast⟩ report hreport hid
    rcases List.mem_append.mp hreport with hmem | hmem
    · exact hlog report hmem hid
    · cases List.mem_singleton.mp hmem
      exact hlast hid

theorem Unfinished.notMem_failed {log : List (QueryId × Progress A)} {id : QueryId}
    (h : Unfinished log id) (e : Error) : (id, .failed e) ∉ log := by
  intro hmem
  cases h _ hmem rfl

/-- A query that has ended either finished or failed. -/
theorem exists_end_of_not_unfinished {log : List (QueryId × Progress A)} {id : QueryId}
    (h : ¬ Unfinished log id) :
    (id, .finished) ∈ log ∨ ∃ e, (id, .failed e) ∈ log := by
  unfold Unfinished at h
  push Not at h
  obtain ⟨⟨id', p⟩, hmem, hid, hends⟩ := h
  cases hid
  cases p with
  | found item => exact absurd rfl hends
  | finished => exact Or.inl hmem
  | failed e => exact Or.inr ⟨e, hmem⟩

/-! ## One stream -/

/-- What holds of the stream of a query, by what was reported about the query. -/
structure StreamInv (log : List (QueryId × Progress A)) (id : QueryId)
    (r : Reader (Except Error A)) : Prop where
  buffer : r.channel.buffer = 64
  settled : r.Settled
  /-- A dropped stream is empty and closed. -/
  gone : r.dropped = true → r.channel.waiting = [] ∧ r.channel.isOpen = false
  /-- Any other one is closed when its query ends. -/
  opened : r.dropped = false → (r.channel.isOpen = true ↔ Unfinished log id)
  /-- No error is sent before. -/
  fine : Unfinished log id → ∀ e, .error e ∉ r.messages
  /-- The error is the last message. -/
  failed : r.dropped = false → ∀ e, (id, .failed e) ∈ log →
    r.messages.getLast? = some (.error e)

namespace StreamInv

variable {log : List (QueryId × Progress A)} {id : QueryId} {r : Reader (Except Error A)}

theorem new (hlog : ∀ report ∈ log, report.1 ≠ id) : StreamInv log id (.new 64) where
  buffer := rfl
  settled hended := by cases hended
  gone hdropped := by cases hdropped
  opened _ := ⟨fun _ report hmem hid => absurd hid (hlog report hmem), fun _ => rfl⟩
  fine _ e := List.not_mem_nil
  failed _ e hmem := absurd rfl (hlog _ hmem)

/-- A report about another query says nothing about this one. -/
theorem other (h : StreamInv log id r) {id' : QueryId} (hid : id' ≠ id) (p : Progress A) :
    StreamInv (log ++ [(id', p)]) id r := by
  have hunfinished : Unfinished (log ++ [(id', p)]) id ↔ Unfinished log id :=
    unfinished_append.trans (and_iff_left fun heq => absurd heq hid)
  constructor
  · exact h.buffer
  · exact h.settled
  · exact h.gone
  · intro hdropped
    exact (h.opened hdropped).trans hunfinished.symm
  · intro hun
    exact h.fine (hunfinished.mp hun)
  · intro hdropped e hmem
    rcases List.mem_append.mp hmem with hmem | hmem
    · exact h.failed hdropped e hmem
    · cases List.mem_singleton.mp hmem
      exact absurd rfl hid

theorem read (h : StreamInv log id r) : StreamInv log id r.read := by
  constructor
  · rw [r.buffer_read]
    exact h.buffer
  · exact h.settled.read
  · rw [r.dropped_read]
    intro hdropped
    have hsame : r.read = r := by
      rw [Reader.read, hdropped]
      rfl
    rw [hsame]
    exact h.gone hdropped
  · rw [r.dropped_read, r.isOpen_read]
    exact h.opened
  · rw [r.messages_read]
    exact h.fine
  · rw [r.dropped_read, r.messages_read]
    exact h.failed

theorem drop (h : StreamInv log id r) : StreamInv log id r.drop where
  buffer := h.buffer
  settled _ := ⟨rfl, rfl⟩
  gone _ := ⟨rfl, rfl⟩
  opened hdropped := by cases hdropped
  fine hun e hmem :=
    h.fine hun e (List.mem_append_left _ ((List.append_nil r.yielded).subst hmem))
  failed hdropped := by cases hdropped

/-- An item goes to the stream or is lost. -/
theorem found (h : StreamInv log id r) (hid : Unfinished log id) (item : A) :
    StreamInv (log ++ [(id, .found item)]) id
      (r.atSender fun ch => (ch.trySend (.ok item)).2) := by
  have hid' : Unfinished (log ++ [(id, .found item)]) id :=
    unfinished_append.mpr ⟨hid, fun _ => rfl⟩
  constructor
  · exact (Channel.buffer_trySend _ _).trans h.buffer
  · exact h.settled.trySend _
  · intro hdropped
    obtain ⟨hwaiting, hopen⟩ := h.gone hdropped
    have hsame : r.channel.trySend (.ok item) = (false, r.channel) :=
      Channel.trySend_of_closed _ hopen
    rw [Reader.atSender, hsame]
    exact ⟨hwaiting, hopen⟩
  · intro hdropped
    have hopen : r.channel.isOpen = true := (h.opened hdropped).mpr hid
    exact iff_of_true ((Channel.isOpen_trySend _ _).trans hopen) hid'
  · intro _ e hmem
    rcases List.mem_append.mp hmem with hyielded | hwaiting
    · exact h.fine hid e (List.mem_append_left _ hyielded)
    · rcases Channel.mem_waiting_trySend hwaiting with hwaiting | herror
      · exact h.fine hid e (List.mem_append_right _ hwaiting)
      · cases herror
  · intro _ e hmem
    exact absurd hmem (hid'.notMem_failed e)

/-- The sender is dropped. -/
theorem finish (h : StreamInv log id r) (hid : Unfinished log id) :
    StreamInv (log ++ [(id, .finished)]) id (r.atSender Channel.close) := by
  have hend : ¬ Unfinished (log ++ [(id, .finished)]) id := by
    intro hun
    cases (unfinished_append.mp hun).2 rfl
  constructor
  · exact h.buffer
  · exact h.settled.close
  · intro hdropped
    exact ⟨(h.gone hdropped).1, rfl⟩
  · intro _
    exact iff_of_false Bool.false_ne_true hend
  · intro hun
    exact absurd hun hend
  · intro _ e hmem
    rcases List.mem_append.mp hmem with hmem | hmem
    · exact absurd hmem (hid.notMem_failed e)
    · cases List.mem_singleton.mp hmem

/-- With room for it, the error becomes the last message. -/
theorem fail (h : StreamInv log id r) (hid : Unfinished log id)
    (hroom : r.channel.waiting.length ≤ 64) (error : Error) :
    StreamInv (log ++ [(id, .failed error)]) id
      (r.atSender fun ch => (ch.trySend (.error error)).2.close) := by
  have hend : ¬ Unfinished (log ++ [(id, .failed error)]) id := by
    intro hun
    cases (unfinished_append.mp hun).2 rfl
  constructor
  · exact (Channel.buffer_trySend _ _).trans h.buffer
  · exact (h.settled.trySend _).close
  · intro hdropped
    obtain ⟨hwaiting, hopen⟩ := h.gone hdropped
    have hsame : r.channel.trySend (.error error) = (false, r.channel) :=
      Channel.trySend_of_closed _ hopen
    rw [Reader.atSender, hsame]
    exact ⟨hwaiting, rfl⟩
  · intro _
    exact iff_of_false Bool.false_ne_true hend
  · intro hun
    exact absurd hun hend
  · intro hdropped e hmem
    have he : e = error := by
      rcases List.mem_append.mp hmem with hmem | hmem
      · exact absurd hmem (hid.notMem_failed e)
      · cases List.mem_singleton.mp hmem
        rfl
    have hsent := Channel.trySend_of_room (.error error) ((h.opened hdropped).mpr hid)
      (hroom.trans_eq h.buffer.symm)
    rw [Reader.messages, Reader.atSender, hsent, he]
    change (r.yielded ++ (r.channel.waiting ++ [Except.error error])).getLast? = _
    rw [← List.append_assoc, List.getLast?_concat]

/-- Reading on tells the caller how its query ended. -/
theorem told (h : StreamInv log id r) : Told log id r := by
  intro hdropped
  constructor
  · intro e hfailed n hn
    have hclosed : r.channel.isOpen = false := by
      refine eq_false_of_ne_true fun hopen => ?_
      exact ((h.opened hdropped).mp hopen).notMem_failed e hfailed
    obtain ⟨hended, hyielded⟩ := Reader.read_toEnd hdropped hclosed hn
    refine ⟨hended, ?_⟩
    rw [hyielded]
    exact h.failed hdropped e hfailed
  · intro hended hfine
    obtain ⟨hwaiting, hclosed⟩ := h.settled hended
    have hnone : ∀ e, (id, .failed e) ∉ log := by
      intro e hfailed
      have hlast := h.failed hdropped e hfailed
      rw [Reader.messages, hwaiting, List.append_nil] at hlast
      exact hfine e (List.mem_of_getLast? hlast)
    have hend : ¬ Unfinished log id := by
      intro hun
      exact Bool.false_ne_true (hclosed.symm.trans ((h.opened hdropped).mpr hun))
    rcases exists_end_of_not_unfinished hend with hfinished | ⟨e, hfailed⟩
    · exact ⟨hfinished, hnone⟩
    · exact absurd hfailed (hnone e)

/-- Without room for it, the error is lost. -/
theorem untold (h : StreamInv log id r) (hid : Unfinished log id)
    (hfull : 64 < r.channel.waiting.length) (error : Error) :
    ¬ Told (log ++ [(id, .failed error)]) id
      (r.atSender fun ch => (ch.trySend (.error error)).2.close) := by
  have hdropped : r.dropped = false := by
    refine eq_false_of_ne_true fun hdropped => ?_
    rw [(h.gone hdropped).1] at hfull
    exact absurd hfull (Nat.not_lt_zero _)
  have hrefused : r.channel.trySend (.error error) = (false, r.channel) :=
    Channel.trySend_of_full _ (h.buffer.trans_lt hfull)
  have hsame : (r.atSender fun ch => (ch.trySend (Except.error error)).2.close) =
      r.atSender Channel.close := by
    rw [Reader.atSender, hrefused]
    rfl
  rw [hsame]
  intro htold
  have hfailed : (id, .failed error) ∈ log ++ [(id, .failed error)] :=
    List.mem_append_right _ (List.mem_singleton_self _)
  have hn : r.channel.waiting.length < r.channel.waiting.length + 1 := Nat.lt_succ_self _
  have hlast := ((htold hdropped).1 error hfailed _ hn).2
  -- the caller reads what was there before
  have hread := (Reader.read_toEnd (r := r.atSender Channel.close) hdropped rfl hn).2
  rw [hread] at hlast
  exact h.fine hid error (List.mem_of_getLast? hlast)

end StreamInv

/-! ## The queries of one kind -/

/-- What an event does to the table and the stream. -/
def Queries.progressed (id : QueryId) (p : Progress A) (q : Queries A) : Queries A :=
  match p with
  | .found item => q.foundItem id item
  | .finished => q.finish id
  | .failed e => q.fail id e

/-- The table holds the senders of the unfinished queries, and every stream has its own
query. -/
structure Queries.Inv (q : Queries A) : Prop where
  pending : ∀ id s, q.pending.lookup id = some s ↔
    s < q.next ∧ q.query s = id ∧ Unfinished q.log id
  unique : ∀ s < q.next, ∀ s' < q.next, q.query s = q.query s' → s = s'
  streams : ∀ s < q.next, StreamInv q.log (q.query s) (q.streams s)

namespace Queries.Inv

variable {q : Queries A} {id : QueryId}

theorem new : (new : Queries A).Inv where
  pending id s := by
    refine iff_of_false ?_ ?_
    · intro h
      cases h
    · intro h
      exact Nat.not_lt_zero _ h.1
  unique s hs := absurd hs (Nat.not_lt_zero _)
  streams s hs := absurd hs (Nat.not_lt_zero _)

theorem allTold (h : q.Inv) : q.AllTold :=
  fun s hs => (h.streams s hs).told

/-! ### What callers do -/

/-- Changing one stream in a way that keeps its invariant. -/
theorem set (h : q.Inv) (s : StreamId) {r : Reader (Except Error A)}
    (hr : StreamInv q.log (q.query s) (q.streams s) → StreamInv q.log (q.query s) r) :
    Inv { q with streams := Function.update q.streams s r } where
  pending := h.pending
  unique := h.unique
  streams s' hs' := by
    change StreamInv q.log (q.query s') (Function.update q.streams s r s')
    rcases eq_or_ne s' s with rfl | hne
    · rw [Function.update_self]
      exact hr (h.streams s' hs')
    · rw [Function.update_of_ne hne]
      exact h.streams s' hs'

theorem read (h : q.Inv) (s : StreamId) : (q.read s).Inv :=
  h.set s StreamInv.read

theorem drop (h : q.Inv) (s : StreamId) : (q.drop s).Inv :=
  h.set s StreamInv.drop

/-! ### The start of a query -/

theorem lookup_of_unused (h : q.Inv) (hid : q.Unused id) :
    q.pending.lookup id = none := by
  cases hs : q.pending.lookup id with
  | none => rfl
  | some s =>
      obtain ⟨hlt, hquery, -⟩ := (h.pending id s).mp hs
      exact absurd hquery (hid.1 s hlt)

/-- No sender is replaced when an unused id goes to the table. -/
theorem start_eq (h : q.Inv) (hid : q.Unused id) :
    q.start id = (q.next, { q with
      pending := q.pending.insert id q.next
      query := Function.update q.query q.next id
      streams := Function.update q.streams q.next (.new 64)
      next := q.next + 1 }) := by
  have hsame : q.dropSender id = q := by
    rw [Queries.dropSender, h.lookup_of_unused hid]
  rw [Queries.start, hsame]

theorem pending_start (h : q.Inv) (hid : q.Unused id) (id' : QueryId) (s : StreamId) :
    (q.pending.insert id q.next).lookup id' = some s ↔
      s < q.next + 1 ∧ Function.update q.query q.next id s = id' ∧
        Unfinished q.log id' := by
  rw [lookup_insert]
  rcases eq_or_ne s q.next with rfl | hne
  · -- the new stream
    rw [Function.update_self]
    split
    · next heq =>
      subst heq
      have hun : Unfinished q.log id' := fun report hmem heq =>
        absurd heq (hid.2 report hmem)
      exact iff_of_true rfl ⟨Nat.lt_succ_self _, rfl, hun⟩
    · next hne =>
      refine iff_of_false (fun hs => ?_) fun h => hne h.2.1.symm
      exact absurd ((h.pending id' _).mp hs).1 (Nat.lt_irrefl _)
  · -- a stream of another query
    rw [Function.update_of_ne hne, Nat.lt_succ_iff_lt_or_eq, or_iff_left hne]
    split
    · next heq =>
      subst heq
      refine iff_of_false (fun hs => ?_) fun h => hid.1 s h.1 h.2.1
      exact hne (Option.some.inj hs).symm
    · exact h.pending id' s

theorem start (h : q.Inv) (hid : q.Unused id) : (q.start id).2.Inv := by
  have hold : ∀ s < q.next, Function.update q.query q.next id s = q.query s :=
    fun s hs => Function.update_of_ne (Nat.ne_of_lt hs) _ _
  rw [h.start_eq hid]
  constructor
  · exact h.pending_start hid
  · intro s hs s' hs' heq
    change Function.update q.query q.next id s = Function.update q.query
      q.next id s' at heq
    rcases Nat.lt_succ_iff_lt_or_eq.mp hs with hlt | rfl <;>
      rcases Nat.lt_succ_iff_lt_or_eq.mp hs' with hlt' | rfl
    · rw [hold s hlt, hold s' hlt'] at heq
      exact h.unique s hlt s' hlt' heq
    · rw [hold s hlt, Function.update_self] at heq
      exact absurd heq (hid.1 s hlt)
    · rw [hold s' hlt', Function.update_self] at heq
      exact absurd heq.symm (hid.1 s' hlt')
    · rfl
  · intro s hs
    change StreamInv q.log (Function.update q.query q.next id s)
      (Function.update q.streams q.next (.new 64) s)
    rcases Nat.lt_succ_iff_lt_or_eq.mp hs with hlt | rfl
    · rw [hold s hlt, Function.update_of_ne (Nat.ne_of_lt hlt)]
      exact h.streams s hlt
    · rw [Function.update_self, Function.update_self]
      exact StreamInv.new hid.2

/-! ### Reports -/

/-- A report about a query that has no sender in the table. -/
theorem note_unknown (h : q.Inv) (hid : Unfinished q.log id)
    (hpending : q.pending.lookup id = none) (p : Progress A) : (q.note id p).Inv := by
  have hquery : ∀ s < q.next, id ≠ q.query s := by
    intro s hs heq
    have hsome := (h.pending id s).mpr ⟨hs, heq.symm, hid⟩
    cases hpending.symm.trans hsome
  constructor
  · intro id' s
    change q.pending.lookup id' = some s ↔
      s < q.next ∧ q.query s = id' ∧ Unfinished (q.log ++ [(id, p)]) id'
    rw [h.pending, unfinished_append]
    refine and_congr_right fun hs => and_congr_right fun heq => ?_
    exact (and_iff_left fun hid' => absurd (hid'.trans heq.symm) (hquery s hs)).symm
  · exact h.unique
  · intro s hs
    exact (h.streams s hs).other (hquery s hs) p

/-- A report about a query goes to its one stream. -/
theorem note_stream (h : q.Inv) {s : StreamId} (hs : q.pending.lookup id = some s)
    {p : Progress A} {pending : HashMap QueryId StreamId} {r : Reader (Except Error A)}
    (hpending : ∀ id', pending.lookup id' =
      if id' = id ∧ p.ends = true then none else q.pending.lookup id')
    (hr : StreamInv q.log id (q.streams s) → StreamInv (q.log ++ [(id, p)]) id r) :
    Inv { q.note id p with
      pending := pending
      streams := Function.update q.streams s r } := by
  obtain ⟨hlt, hquery, hid⟩ := (h.pending id s).mp hs
  constructor
  · intro id' s'
    change pending.lookup id' = some s' ↔
      s' < q.next ∧ q.query s' = id' ∧ Unfinished (q.log ++ [(id, p)]) id'
    rw [hpending, unfinished_append]
    split
    · next hend =>
      refine iff_of_false (fun hnone => by cases hnone) fun h' => ?_
      rw [h'.2.2.2 hend.1.symm] at hend
      cases hend.2
    · next hend =>
      rw [h.pending]
      refine and_congr_right fun _ => and_congr_right fun _ => ?_
      refine (and_iff_left fun heq => ?_).symm
      exact eq_false_of_ne_true fun hends => hend ⟨heq.symm, hends⟩
  · exact h.unique
  · intro s' hs'
    change StreamInv (q.log ++ [(id, p)]) (q.query s') (Function.update q.streams s r s')
    rcases eq_or_ne s' s with rfl | hne
    · rw [Function.update_self, hquery]
      exact hr (hquery ▸ h.streams s' hs')
    · rw [Function.update_of_ne hne]
      refine (h.streams s' hs').other (fun heq => ?_) p
      exact hne (h.unique s' hs' s hlt (heq.symm.trans hquery.symm))

/-- If a failure finds room for its error, every report keeps the invariant. -/
theorem progressed (h : q.Inv) (hid : Unfinished q.log id) (p : Progress A)
    (hroom : ∀ e, p = .failed e → q.HasRoom id) :
    ((q.note id p).progressed id p).Inv := by
  have hlookup : (q.note id p).pending.lookup id = q.pending.lookup id := rfl
  have herased : ∀ id', (q.pending.erase id).lookup id' =
      if id' = id ∧ true = true then none else q.pending.lookup id' := by
    intro id'
    rw [lookup_erase]
    exact if_congr (and_iff_left rfl).symm rfl rfl
  cases hs : q.pending.lookup id with
  | none =>
      rw [hs] at hlookup
      have hsame : (q.note id p).progressed id p = q.note id p := by
        cases p with
        | found item => rw [Queries.progressed, Queries.foundItem, hlookup]
        | finished => rw [Queries.progressed, Queries.finish, hlookup]
        | failed e => rw [Queries.progressed, Queries.fail, hlookup]
      rw [hsame]
      exact h.note_unknown hid hs p
  | some s =>
      rw [hs] at hlookup
      cases p with
      | found item =>
          rw [Queries.progressed, Queries.foundItem, hlookup]
          refine h.note_stream hs (fun id' => ?_) fun hr => hr.found hid item
          exact (if_neg fun hend => Bool.false_ne_true hend.2).symm
      | finished =>
          rw [Queries.progressed, Queries.finish, hlookup]
          exact h.note_stream hs herased fun hr => hr.finish hid
      | failed e =>
          rw [Queries.progressed, Queries.fail, hlookup]
          exact h.note_stream hs herased fun hr => hr.fail hid (hroom e rfl s hs) e

/-- A failure that finds no room is not told. -/
theorem not_allTold_of_full (h : q.Inv) (hid : Unfinished q.log id)
    (hfull : ¬ q.HasRoom id) (e : Error) :
    ¬ ((q.note id (.failed e)).progressed id (.failed e)).AllTold := by
  unfold HasRoom at hfull
  push Not at hfull
  obtain ⟨s, hs, hfull⟩ := hfull
  obtain ⟨hlt, hquery, -⟩ := (h.pending id s).mp hs
  have hlookup : (q.note id (.failed e)).pending.lookup id = some s := hs
  rw [Queries.progressed, Queries.fail, hlookup]
  intro htold
  have hlost := htold s hlt
  change Told (q.log ++ [(id, .failed e)]) (q.query s)
    (Function.update q.streams s _ s) at hlost
  rw [Function.update_self, hquery] at hlost
  exact (hquery ▸ h.streams s hlt).untold hid hfull e hlost

end Queries.Inv

/-! ## Every run -/

theorem processGetRecord_eq (id : QueryId) (result : Except GetRecordError GetRecordOk)
    (q : Queries PeerRecord) :
    processGetRecord id result q = q.progressed id (recordProgress result) := by
  rcases result with e | ⟨record⟩ | _ <;> rfl

theorem processGetProviders_eq (id : QueryId)
    (result : Except GetProvidersError GetProvidersOk) (q : Queries (Finset PeerId)) :
    processGetProviders id result q = q.progressed id (providersProgress result) := by
  rcases result with e | ⟨providers⟩ | _ <;> rfl

/-- The invariant of the task. -/
def Inv (w : World) : Prop :=
  w.getRecord.Inv ∧ w.getProviders.Inv

theorem Inv.step {w : World} (h : Inv w) {i : Input} (hi : Promised w i)
    (hroom : Roomy w i) : Inv (step i w) := by
  obtain ⟨hrecord, hproviders⟩ := h
  cases i with
  | get id =>
      rw [KademliaQueries.step, processGetCommand]
      split
      · exact ⟨hrecord.start hi, hproviders⟩
      · exact ⟨hrecord, hproviders⟩
  | getProviders id =>
      rw [KademliaQueries.step, processGetProvidersCommand]
      split
      · exact ⟨hrecord, hproviders.start hi⟩
      · exact ⟨hrecord, hproviders⟩
  | outboundQueryProgressed id result =>
      cases result with
      | getRecord result =>
          rw [KademliaQueries.step, processGetRecord_eq]
          refine ⟨hrecord.progressed hi _ fun e he => ?_, hproviders⟩
          rcases result with e' | ⟨record⟩ | _
          · exact hroom
          · cases he
          · cases he
      | getProviders result =>
          rw [KademliaQueries.step, processGetProviders_eq]
          refine ⟨hrecord, hproviders.progressed hi _ fun e he => ?_⟩
          rcases result with e' | ⟨providers⟩ | _
          · exact hroom
          · cases he
          · cases he
  | readRecords s => exact ⟨hrecord.read s, hproviders⟩
  | readProviders s => exact ⟨hrecord, hproviders.read s⟩
  | dropRecords s => exact ⟨hrecord.drop s, hproviders⟩
  | dropProviders s => exact ⟨hrecord, hproviders.drop s⟩

/-- The invariant holds in every run whose failures find room in their streams. -/
theorem Inv.reachable {w : World}
    (hw : Service.Reachable service (fun w i => Promised w i ∧ Roomy w i) w) : Inv w := by
  refine hw.invariant ?_ ?_
  · rintro w ⟨hrecord, hproviders⟩
    rw [Inv, hrecord, hproviders]
    exact ⟨Queries.Inv.new, Queries.Inv.new⟩
  · intro w i h hi
    exact h.step hi.1 hi.2

/-- A failure that finds more than 64 unread messages is hidden. -/
theorem Inv.hidden {w : World} (h : Inv w) {i : Input} (hi : Promised w i)
    (hfull : ¬ Roomy w i) :
    ¬ ((KademliaQueries.step i w).getRecord.AllTold ∧
      (KademliaQueries.step i w).getProviders.AllTold) := by
  rintro ⟨hrecord, hproviders⟩
  cases i with
  | outboundQueryProgressed id result =>
      cases result with
      | getRecord result =>
          rcases result with e | ⟨record⟩ | _
          · exact h.1.not_allTold_of_full hi hfull _ hrecord
          · exact hfull trivial
          · exact hfull trivial
      | getProviders result =>
          rcases result with e | ⟨providers⟩ | _
          · exact h.2.not_allTold_of_full hi hfull _ hproviders
          · exact hfull trivial
          · exact hfull trivial
  | get id => exact hfull trivial
  | getProviders id => exact hfull trivial
  | readRecords s => exact hfull trivial
  | readProviders s => exact hfull trivial
  | dropRecords s => exact hfull trivial
  | dropProviders s => exact hfull trivial

/-- In a run whose failures all find room in their streams every caller is told how its
query ended, and the first failure that finds none is hidden. -/
theorem query_failures_told {w : World}
    (hw : Service.Reachable service (fun w i => Promised w i ∧ Roomy w i) w) :
    (w.getRecord.AllTold ∧ w.getProviders.AllTold) ∧
      ∀ i, Promised w i →
        ((step i w).getRecord.AllTold ∧ (step i w).getProviders.AllTold ↔ Roomy w i) := by
  have h := Inv.reachable hw
  refine ⟨⟨h.1.allTold, h.2.allTold⟩, fun i hi => ⟨fun htold => ?_, fun hroom => ?_⟩⟩
  · by_contra hfull
    exact h.hidden hi hfull htold
  · have h' := h.step hi hroom
    exact ⟨h'.1.allTold, h'.2.allTold⟩

/-! ## Two runs -/

/-- A record that a peer answers with. -/
def sampleRecord : PeerRecord :=
  ⟨none, { key := [1], value := [2], publisher := none, expires := none }⟩

def recordFound (id : QueryId) : Input :=
  .outboundQueryProgressed id (.getRecord (.ok (.foundRecord sampleRecord)))

def timedOut (id : QueryId) : Input :=
  .outboundQueryProgressed id (.getRecord (.error (.timeout [1])))

/-- The task before any query. -/
def World.new : World :=
  ⟨true, .new, .new⟩

/-- One record is found before the query times out. -/
def oneRecord : List Input :=
  [.get 0, recordFound 0, timedOut 0, .readRecords 0, .readRecords 0]

theorem query_failures_told_oneRecord :
    ∃ w, Service.Reachable service (fun w i => Promised w i ∧ Roomy w i) w ∧
      w.getRecord.log = [(0, .found sampleRecord),
        (0, .failed (.getRecord (.timeout [1])))] ∧
      (w.getRecord.streams 0).yielded =
        [.ok sampleRecord, .error (.getRecord (.timeout [1]))] ∧
      w.getRecord.AllTold ∧ w.getProviders.AllTold := by
  obtain ⟨w, hw, hlog, hyielded⟩ :=
    @Service.exists_reachable_of_run World Input service
      (fun w i => Promised w i ∧ Roomy w i)
      (fun w i => decide (Promised w i ∧ Roomy w i)) (fun _ _ => of_decide_eq_true)
      World.new ⟨rfl, rfl⟩ oneRecord
      (fun w =>
        w.getRecord.log =
          [(0, .found sampleRecord), (0, .failed (.getRecord (.timeout [1])))] ∧
        (w.getRecord.streams 0).yielded =
          [.ok sampleRecord, .error (.getRecord (.timeout [1]))]) _ (by decide)
  exact ⟨w, hw, hlog, hyielded, (query_failures_told hw).1⟩

/-- The caller reads nothing before its stream is full and the query times out. -/
def lateReader : List Input :=
  .get 0 :: (List.replicate 65 (recordFound 0) ++ timedOut 0 ::
    List.replicate 66 (.readRecords 0))

/-- The stream of the late reader ends after 65 records as if its query had finished. -/
theorem timeout_hidden_from_lateReader :
    ∃ w, Service.Reachable service Promised w ∧
      w.getRecord.log = List.replicate 65 (0, .found sampleRecord) ++
        [(0, .failed (.getRecord (.timeout [1])))] ∧
      (w.getRecord.streams 0).yielded = List.replicate 65 (.ok sampleRecord) ∧
      (w.getRecord.streams 0).ended = true ∧ ¬ w.getRecord.AllTold := by
  obtain ⟨w, hw, ⟨hnext, hquery, hdropped⟩, hlog, hyielded, hended⟩ :=
    @Service.exists_reachable_of_run World Input service Promised
      (fun w i => decide (Promised w i)) (fun _ _ => of_decide_eq_true)
      World.new ⟨rfl, rfl⟩ lateReader
      (fun w =>
        (0 < w.getRecord.next ∧ w.getRecord.query 0 = 0 ∧
          (w.getRecord.streams 0).dropped = false) ∧
        w.getRecord.log = List.replicate 65 (0, .found sampleRecord) ++
          [(0, .failed (.getRecord (.timeout [1])))] ∧
        (w.getRecord.streams 0).yielded = List.replicate 65 (.ok sampleRecord) ∧
        (w.getRecord.streams 0).ended = true) _ (by decide +kernel)
  refine ⟨w, hw, hlog, hyielded, hended, fun htold => ?_⟩
  have hnone : ∀ e, .error e ∉ (w.getRecord.streams 0).yielded := by
    intro e hmem
    rw [hyielded] at hmem
    cases List.eq_of_mem_replicate hmem
  have hfailed : (0, .failed (.getRecord (.timeout [1]))) ∈ w.getRecord.log := by
    rw [hlog]
    exact List.mem_append_right _ (List.mem_singleton_self _)
  have hcomplete := ((htold 0 hnext) hdropped).2 hended hnone
  rw [hquery] at hcomplete
  exact hcomplete.2 _ hfailed

end Connexa.KademliaQueries
