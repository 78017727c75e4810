import Connexa.Support.HashMap
import Connexa.Support.History

/-!
# Serial request lines

Commands wait in queues, one for each key, and the front of a queue has a
request at a client.  When the client reports that a request of the key is
complete, the front is answered and the next command is started; commands whose
request cannot be started are answered with the refusal.  Keys belong to
groups, and when a group is disconnected all its queues are answered at once.
The client's reports carry a key, not a request.
-/

namespace Connexa

/-- A request at the client. -/
structure Request (K : Type) where
  id : ℕ
  key : K
  /-- The responder of the command it was started for.  Requests that the
  client starts by itself have none. -/
  command : Option ℕ
  /-- Its group was disconnected while it was in flight. -/
  stale : Bool
  deriving DecidableEq

/-- What happens on a line, with results in `R`. -/
inductive LineEvent (K G R : Type) where
  | asked (key : K) (responder : ℕ)
  | started (id : ℕ) (key : K) (command : Option ℕ)
  | refused (responder : ℕ) (result : R)
  | completed (id : ℕ) (result : R)
  | disconnected (group : G)
  | answered (key : K) (responder : ℕ) (result : R)
  deriving DecidableEq

structure Line (K J G R : Type) where
  queues : HashMap K (List (J × ℕ))
  inFlight : List (Request K)
  /-- Number of requests started so far. -/
  count : ℕ
  /-- What has happened so far; nothing reads it. -/
  log : List (LineEvent K G R)

namespace Line

open HashMap

variable {K J G R : Type}

def empty : Line K J G R where
  queues := ∅
  inFlight := []
  count := 0
  log := []

def record (e : LineEvent K G R) (l : Line K J G R) : Line K J G R :=
  { l with log := l.log ++ [e] }

/-- The client accepts a request. -/
def start (key : K) (command : Option ℕ) (l : Line K J G R) : Line K J G R :=
  { l with
    inFlight := l.inFlight ++ [⟨l.count, key, command, false⟩]
    count := l.count + 1
    log := l.log ++ [.started l.count key command] }

variable [DecidableEq K]

/-- Start the first command of the queue that the client accepts; `refusals n`
is the client's answer to the attempt with number `n`. -/
def startNext (key : K) (refusals : ℕ → Option R) :
    ℕ → List (J × ℕ) → Line K J G R → Line K J G R
  | _, [], l => l
  | n, (job, responder) :: rest, l =>
      match refusals n with
      | none =>
          { l.start key (some responder) with
            queues := l.queues.insert key ((job, responder) :: rest) }
      | some error =>
          startNext key refusals (n + 1) rest
            ((l.record (.refused responder error)).record
              (.answered key responder error))

/-- A command arrives. -/
def ask (key : K) (job : J) (responder : ℕ) (refusal : Option R)
    (l : Line K J G R) : Line K J G R :=
  match l.queues.lookup key with
  | some queue =>
      { l with queues := l.queues.insert key (queue ++ [(job, responder)]) }
  | none =>
      match refusal with
      | some error =>
          (l.record (.refused responder error)).record
            (.answered key responder error)
      | none =>
          { l.start key (some responder) with
            queues := l.queues.insert key
              ((l.queues.lookup key).getD [] ++ [(job, responder)]) }

/-- The front of the queue is answered and the next command is started. -/
def finish (key : K) (result : R) (refusals : ℕ → Option R)
    (l : Line K J G R) : Line K J G R :=
  match l.queues.lookup key with
  | none => l
  | some queue =>
      let l := { l with queues := l.queues.erase key }
      match queue with
      | [] => l
      | (_, responder) :: rest =>
          startNext key refusals 0 rest (l.record (.answered key responder result))

/-- The client is done with the request with number `id`. -/
def leave (id : ℕ) (result : R) (l : Line K J G R) : Line K J G R :=
  { l with
    inFlight := l.inFlight.filter fun r => r.id ≠ id
    log := l.log ++ [.completed id result] }

/-- All commands of a queue are answered with one result. -/
def failQueue (error : R) (l : Line K J G R) (key : K) : Line K J G R :=
  match l.queues.lookup key with
  | none => l
  | some queue =>
      { l with
        queues := l.queues.erase key
        log := l.log ++ queue.map fun e => .answered key e.2 error }

def failGroup [DecidableEq G] (group : K → G) (g : G) (error : R)
    (l : Line K J G R) : Line K J G R :=
  (l.queues.keys.filter fun key => group key = g).foldl (failQueue error) l

/-- The requests of a group belong to a connection that is closed. -/
def disconnect [DecidableEq G] (group : K → G) (g : G)
    (l : Line K J G R) : Line K J G R :=
  { l with
    inFlight := l.inFlight.map fun r =>
      if group r.key = g then { r with stale := true } else r
    log := l.log ++ [.disconnected g] }

/-! ## Reading the record -/

@[simp] def commandOf : LineEvent K G R → Option (K × ℕ)
  | .asked key responder => some (key, responder)
  | _ => none

@[simp] def answerOf : LineEvent K G R → Option (K × ℕ)
  | .answered key responder _ => some (key, responder)
  | _ => none

/-- All commands so far, by key and responder. -/
def asked (log : List (LineEvent K G R)) : List (K × ℕ) :=
  log.filterMap commandOf

/-- All answers so far. -/
def answered (log : List (LineEvent K G R)) : List (K × ℕ) :=
  log.filterMap answerOf

/-- The responders of a key, in the same order. -/
def forKey (key : K) (responders : List (K × ℕ)) : List ℕ :=
  (responders.filter fun e => e.1 = key).map Prod.snd

/-- The commands of a key that wait for their answer. -/
def waiting (l : Line K J G R) (key : K) : List ℕ :=
  ((l.queues.lookup key).getD []).map Prod.snd

/-- The requests of a key that were started for commands. -/
def own (l : Line K J G R) (key : K) : List (Request K) :=
  l.inFlight.filter fun r => r.key = key ∧ r.command.isSome

/-- Every answer is the result of the command's own request, the refusal of its
own start, or that of a disconnection while it waited. -/
def Justified (group : K → G) (failure : G → R) (pre : List (LineEvent K G R)) :
    LineEvent K G R → Prop
  | .answered key responder result =>
      (∃ before id, pre = before ++ [.completed id result] ∧
        .started id key (some responder) ∈ before) ∨
      (∃ before, pre = before ++ [.refused responder result]) ∨
      ∃ before after, pre = before ++ .disconnected (group key) :: after ∧
        (key, responder) ∈ asked before ∧ result = failure (group key)
  | _ => True

/-- The client's requests are numbered in the order they were started. -/
structure Numbered (l : Line K J G R) : Prop where
  ids : (l.inFlight.map Request.id).Nodup
  bounded : ∀ r ∈ l.inFlight, r.id < l.count
  logged : ∀ r ∈ l.inFlight, .started r.id r.key r.command ∈ l.log

/-- What holds of a line at any time, whatever the commands are that wait. -/
structure Sound (group : K → G) (failure : G → R) (l : Line K J G R) : Prop
    extends Numbered l where
  nonempty : ∀ key queue, l.queues.lookup key = some queue → queue ≠ []
  front : ∀ key job responder rest,
    l.queues.lookup key = some ((job, responder) :: rest) →
      ∃ id, l.own key = [⟨id, key, some responder, false⟩]
  idle : ∀ key, l.queues.lookup key = none → ∀ r ∈ l.own key, r.stale = true
  single : ∀ key, (l.own key).length ≤ 1
  drained : ∀ r ∈ l.inFlight, r.stale = true →
    ∀ key, group key = group r.key → l.queues.lookup key = none
  distinct : ((asked l.log).map Prod.snd).Nodup
  justified : Chronicle (Justified group failure) l.log

/-- The commands of every key are answered in the order they arrived, and those
that were not answered yet wait. -/
structure Orderly (group : K → G) (failure : G → R) (l : Line K J G R) : Prop
    extends Sound group failure l where
  order : ∀ key,
    forKey key (answered l.log) ++ l.waiting key = forKey key (asked l.log)

/-- Between two requests of a key: its queue is taken out and none of its
requests is in flight. -/
structure Paused (group : K → G) (failure : G → R) (key : K)
    (queue : List (J × ℕ)) (l : Line K J G R) : Prop
    extends Sound group failure l where
  taken : l.queues.lookup key = none
  quiet : l.own key = []
  current : ∀ r ∈ l.inFlight, group r.key = group key → r.stale = false
  order : ∀ k, forKey k (answered l.log) ++
    (if k = key then queue.map Prod.snd else l.waiting k) = forKey k (asked l.log)

section Reading

variable (a b : List (LineEvent K G R)) (e : LineEvent K G R)

omit [DecidableEq K] in
@[simp] theorem asked_append : asked (a ++ b) = asked a ++ asked b :=
  List.filterMap_append

omit [DecidableEq K] in
@[simp] theorem asked_nil : asked ([] : List (LineEvent K G R)) = [] := rfl

omit [DecidableEq K] in
@[simp] theorem asked_cons : asked (e :: a) = (commandOf e).toList ++ asked a := by
  cases e <;> rfl

omit [DecidableEq K] in
@[simp] theorem answered_append : answered (a ++ b) = answered a ++ answered b :=
  List.filterMap_append

omit [DecidableEq K] in
@[simp] theorem answered_nil : answered ([] : List (LineEvent K G R)) = [] := rfl

omit [DecidableEq K] in
@[simp] theorem answered_cons :
    answered (e :: a) = (answerOf e).toList ++ answered a := by
  cases e <;> rfl

@[simp] theorem forKey_append (key : K) (c d : List (K × ℕ)) :
    forKey key (c ++ d) = forKey key c ++ forKey key d := by
  simp [forKey]

@[simp] theorem forKey_singleton (key k : K) (responder : ℕ) :
    forKey key [(k, responder)] = if k = key then [responder] else [] := by
  by_cases h : k = key
  · simp [forKey, h]
  · simp [forKey, h]

@[simp] theorem forKey_nil (key : K) : forKey key [] = [] := rfl

theorem mem_forKey {key : K} {responder : ℕ} {responders : List (K × ℕ)} :
    responder ∈ forKey key responders ↔ (key, responder) ∈ responders := by
  simp [forKey]

end Reading

section Steps

variable {group : K → G} {failure : G → R} {l : Line K J G R} {key : K}
  {queue : List (J × ℕ)}

/-- Recording something that is justified changes nothing else. -/
theorem Sound.extend (h : Sound group failure l) {es : List (LineEvent K G R)}
    (hdistinct : ((asked (l.log ++ es)).map Prod.snd).Nodup)
    (hjustified : Chronicle (Justified group failure) (l.log ++ es)) :
    Sound group failure { l with log := l.log ++ es } where
  nonempty := h.nonempty
  front := h.front
  idle := h.idle
  single := h.single
  drained := h.drained
  distinct := hdistinct
  ids := h.ids
  bounded := h.bounded
  logged := fun r hr => List.mem_append_left _ (h.logged r hr)
  justified := hjustified

omit [DecidableEq K] in
theorem Numbered.start (h : Numbered l) (key : K) (command : Option ℕ) :
    Numbered (l.start key command) := by
  refine ⟨?_, ?_, ?_⟩
  · have hnew : l.count ∉ l.inFlight.map Request.id := by
      intro hmem
      obtain ⟨r, hr, heq⟩ := List.mem_map.mp hmem
      exact absurd (h.bounded r hr) (by omega)
    simp only [Line.start, List.map_append, List.map_singleton]
    refine List.Nodup.append h.ids (List.nodup_singleton _) ?_
    exact List.disjoint_singleton.mpr hnew
  · intro r hr
    rcases List.mem_append.mp hr with hr | hr
    · exact Nat.lt_succ_of_lt (h.bounded r hr)
    · rw [List.mem_singleton.mp hr]
      exact Nat.lt_succ_self _
  · intro r hr
    rcases List.mem_append.mp hr with hr | hr
    · exact List.mem_append_left _ (h.logged r hr)
    · rw [List.mem_singleton.mp hr]
      exact List.mem_append_right _ (List.mem_singleton_self _)

theorem own_start (responder : ℕ) (k : K) :
    (l.start key (some responder)).own k =
      l.own k ++ if key = k then [⟨l.count, key, some responder, false⟩] else [] := by
  simp only [own, start, List.filter_append, List.filter_singleton]
  by_cases hk : key = k
  · simp [hk]
  · simp [hk]

/-- The first waiting command is started. -/
theorem Paused.accept {job : J} {responder : ℕ} {rest : List (J × ℕ)}
    (h : Paused group failure key ((job, responder) :: rest) l) :
    Orderly group failure
      { l.start key (some responder) with
        queues := l.queues.insert key ((job, responder) :: rest) } := by
  have hnumbered := h.toNumbered.start key (some responder)
  have hown : ∀ k, Line.own { l.start key (some responder) with
      queues := l.queues.insert key ((job, responder) :: rest) } k =
        l.own k ++ if key = k then [⟨l.count, key, some responder, false⟩] else [] :=
    own_start responder
  refine ⟨⟨⟨hnumbered.ids, hnumbered.bounded, hnumbered.logged⟩, ?_, ?_, ?_, ?_, ?_,
    ?_, h.justified.snoc trivial⟩, ?_⟩
  · intro k q hq
    rw [lookup_insert] at hq
    split at hq
    · cases hq
      exact List.cons_ne_nil _ _
    · exact h.nonempty k q hq
  · intro k job' responder' rest' hq
    rw [hown]
    rw [lookup_insert] at hq
    split at hq
    · next hk =>
      cases hq
      subst hk
      exact ⟨l.count, by simp [h.quiet]⟩
    · next hk =>
      rw [if_neg (Ne.symm hk), List.append_nil]
      exact h.front k job' responder' rest' hq
  · intro k hq
    rw [lookup_insert] at hq
    split at hq
    · cases hq
    · next hk =>
      rw [hown, if_neg (Ne.symm hk), List.append_nil]
      exact h.idle k hq
  · intro k
    rw [hown]
    by_cases hk : key = k
    · subst hk
      simp [h.quiet]
    · rw [if_neg hk, List.append_nil]
      exact h.single k
  · intro r hr hstale k hgroup
    have hold : r ∈ l.inFlight := by
      rcases List.mem_append.mp hr with hr | hr
      · exact hr
      · rw [List.mem_singleton.mp hr] at hstale
        cases hstale
    rw [lookup_insert]
    split
    · next hk =>
      subst hk
      rw [h.current r hold hgroup.symm] at hstale
      cases hstale
    · exact h.drained r hold hstale k hgroup
  · simpa [start] using h.distinct
  · intro k
    have horder := h.order k
    simp only [waiting, lookup_insert]
    by_cases hk : k = key
    · subst hk
      simpa [start] using horder
    · simpa [start, hk, waiting] using horder

/-- The first waiting command is refused and answered with the refusal. -/
theorem Paused.refuse {job : J} {responder : ℕ} {rest : List (J × ℕ)}
    (h : Paused group failure key ((job, responder) :: rest) l) (error : R) :
    Paused group failure key rest
      ((l.record (.refused responder error)).record
        (.answered key responder error)) := by
  have hrefused : Sound group failure (l.record (.refused responder error)) :=
    h.toSound.extend (by simpa using h.distinct) (h.justified.snoc trivial)
  have hsound : Sound group failure
      ((l.record (.refused responder error)).record
        (.answered key responder error)) :=
    hrefused.extend (by simpa using hrefused.distinct)
      (hrefused.justified.snoc (Or.inr (Or.inl ⟨l.log, rfl⟩)))
  refine ⟨hsound, h.taken, h.quiet, h.current, fun k => ?_⟩
  have horder := h.order k
  by_cases hk : k = key
  · subst hk
    simpa [record] using horder
  · simpa [record, hk, Ne.symm hk, waiting] using horder

/-- Between two requests the client accepts one of the waiting commands, or
refuses them all. -/
theorem Paused.startNext (h : Paused group failure key queue l)
    (refusals : ℕ → Option R) (n : ℕ) :
    Orderly group failure (startNext key refusals n queue l) := by
  induction queue generalizing l n with
  | nil =>
      refine ⟨h.toSound, fun k => ?_⟩
      have horder := h.order k
      by_cases hk : k = key
      · subst hk
        simpa [Line.startNext, waiting, h.taken] using horder
      · simpa [Line.startNext, hk] using horder
  | cons first rest ih =>
      obtain ⟨job, responder⟩ := first
      rw [Line.startNext]
      split
      · exact h.accept
      · next error _ => exact ih (h.refuse error) (n + 1)

theorem ask_of_lookup_eq_none (job : J) (responder : ℕ) (refusal : Option R)
    (h : l.queues.lookup key = none) :
    l.ask key job responder refusal =
      startNext key (fun _ => refusal) 0 [(job, responder)] l := by
  unfold ask
  simp only [h, startNext]
  cases refusal with
  | none => rfl
  | some error => rfl

/-- A command arrives while no request of an earlier connection is left. -/
theorem Orderly.ask (h : Orderly group failure l) {responder : ℕ}
    (hfresh : responder ∉ (asked l.log).map Prod.snd)
    (hdrained : ∀ r ∈ l.inFlight, r.stale = false) (key : K) (job : J)
    (refusal : Option R) :
    Orderly group failure
      ((l.record (.asked key responder)).ask key job responder refusal) := by
  have hsound : Sound group failure (l.record (.asked key responder)) := by
    refine h.toSound.extend ?_ (h.justified.snoc trivial)
    rw [asked_append, List.map_append]
    exact h.distinct.append (List.nodup_singleton _)
      (List.disjoint_singleton.mpr hfresh)
  cases hqueue : l.queues.lookup key with
  | none =>
      rw [ask_of_lookup_eq_none (l := l.record (.asked key responder)) job
        responder refusal hqueue]
      refine Paused.startNext ⟨hsound, hqueue, ?_, fun r hr _ => hdrained r hr,
        fun k => ?_⟩ _ 0
      · -- a request without a queue would be stale
        refine List.eq_nil_iff_forall_not_mem.mpr fun r hr => ?_
        have hstale := h.idle key hqueue r hr
        rw [hdrained r (List.mem_of_mem_filter hr)] at hstale
        cases hstale
      · have horder := h.order k
        by_cases hk : k = key
        · subst hk
          simpa [record, waiting, hqueue] using horder
        · simpa [record, waiting, hk, Ne.symm hk] using horder
  | some queue =>
      have hask : (l.record (.asked key responder)).ask key job responder refusal =
          { l.record (.asked key responder) with
            queues := l.queues.insert key (queue ++ [(job, responder)]) } := by
        simp [Line.ask, record, hqueue]
      rw [hask]
      refine ⟨⟨⟨hsound.ids, hsound.bounded, hsound.logged⟩, ?_, ?_, ?_, h.single, ?_,
        hsound.distinct, hsound.justified⟩, fun k => ?_⟩
      · intro k q hq
        rw [lookup_insert] at hq
        split at hq
        · cases hq
          simp
        · exact h.nonempty k q hq
      · intro k job' responder' rest hq
        rw [lookup_insert] at hq
        split at hq
        · next hk =>
          subst hk
          -- the new command is not the front
          cases queue with
          | nil => exact absurd rfl (h.nonempty k [] hqueue)
          | cons first others =>
              cases hq
              exact h.front k job' responder' others hqueue
        · exact h.front k job' responder' rest hq
      · intro k hq
        rw [lookup_insert] at hq
        split at hq
        · cases hq
        · exact h.idle k hq
      · intro r hr hstale
        rw [hdrained r hr] at hstale
        cases hstale
      · have horder := h.order k
        by_cases hk : k = key
        · subst hk
          simp only [waiting, hqueue, Option.getD_some] at horder
          simp [record, waiting, ← horder]
        · simpa [record, waiting, lookup_insert, hk, Ne.symm hk] using horder

/-- The client starts a request of its own. -/
theorem Orderly.renew (h : Orderly group failure l) (key : K) :
    Orderly group failure (l.start key none) := by
  have hown : ∀ k, (l.start key none).own k = l.own k := by
    intro k
    simp [own, start]
  refine ⟨⟨h.toNumbered.start key none, h.nonempty, ?_, ?_, ?_, ?_, ?_,
    h.justified.snoc trivial⟩, fun k => ?_⟩
  · intro k
    rw [hown]
    exact h.front k
  · intro k
    rw [hown]
    exact h.idle k
  · intro k
    rw [hown]
    exact h.single k
  · intro r hr hstale
    rcases List.mem_append.mp hr with hr | hr
    · exact h.drained r hr hstale
    · rw [List.mem_singleton.mp hr] at hstale
      cases hstale
  · simpa [start] using h.distinct
  · simpa [start, waiting] using h.order k

/-! ### Completions -/

theorem own_leave (id : ℕ) (result : R) (k : K) :
    (l.leave id result).own k = (l.own k).filter fun other => other.id ≠ id := by
  simp only [own, leave, List.filter_filter]
  exact List.filter_congr fun other _ => Bool.and_comm _ _

omit [DecidableEq K] in
theorem Numbered.eq_of_id_eq (h : Numbered l) {r other : Request K}
    (hr : r ∈ l.inFlight) (hother : other ∈ l.inFlight) (hid : other.id = r.id) :
    other = r :=
  List.inj_on_of_nodup_map h.ids hother hr hid

omit [DecidableEq K] in
theorem Numbered.leave (h : Numbered l) (id : ℕ) (result : R) :
    Numbered (l.leave id result) where
  ids := h.ids.sublist (List.filter_sublist.map _)
  bounded := fun other hother => h.bounded other (List.mem_of_mem_filter hother)
  logged := fun other hother =>
    List.mem_append_left _ (h.logged other (List.mem_of_mem_filter hother))

theorem Numbered.own_leave_of_ne (h : Numbered l) {r : Request K}
    (hr : r ∈ l.inFlight) (result : R) {k : K} (hk : r.key ≠ k) :
    (l.leave r.id result).own k = l.own k := by
  rw [own_leave, List.filter_eq_self]
  intro other hother
  obtain ⟨hother, hkey⟩ := List.mem_filter.mp hother
  refine decide_eq_true fun hid => hk ?_
  rw [← h.eq_of_id_eq hr hother hid]
  exact (of_decide_eq_true hkey).1

/-- A completion without a queue. -/
theorem Orderly.leave (h : Orderly group failure l) {r : Request K}
    (hr : r ∈ l.inFlight) (result : R) (hqueue : l.queues.lookup r.key = none) :
    Orderly group failure (l.leave r.id result) := by
  refine ⟨⟨h.toNumbered.leave r.id result, h.nonempty, ?_, ?_, ?_, ?_, ?_,
    h.justified.snoc trivial⟩, fun k => ?_⟩
  · intro k job responder rest hq
    have hk : r.key ≠ k := by
      rintro rfl
      rw [Line.leave, hqueue] at hq
      cases hq
    rw [h.toNumbered.own_leave_of_ne hr result hk]
    exact h.front k job responder rest hq
  · intro k hq other hother
    rw [own_leave] at hother
    exact h.idle k hq other (List.mem_of_mem_filter hother)
  · intro k
    rw [own_leave]
    exact List.filter_sublist.length_le.trans (h.single k)
  · exact fun other hother => h.drained other (List.mem_of_mem_filter hother)
  · simpa [Line.leave] using h.distinct
  · simpa [Line.leave, waiting] using h.order k

/-- The front is answered by the completion of its own request. -/
theorem Orderly.answerFront (h : Orderly group failure l) {r : Request K}
    (hr : r ∈ l.inFlight) (result : R) {job : J} {responder : ℕ}
    {rest : List (J × ℕ)} (hcommand : r.command = some responder)
    (hqueue : l.queues.lookup r.key = some ((job, responder) :: rest)) :
    Paused group failure r.key rest
      ({ l.leave r.id result with queues := l.queues.erase r.key }.record
        (.answered r.key responder result)) := by
  have hnumbered := h.toNumbered.leave r.id result
  have hquiet : (l.leave r.id result).own r.key = [] := by
    obtain ⟨id, hfront⟩ := h.front _ _ _ _ hqueue
    have hown : r ∈ l.own r.key :=
      List.mem_filter.mpr ⟨hr, decide_eq_true ⟨rfl, by simp [hcommand]⟩⟩
    rw [own_leave, hfront] at *
    rw [List.mem_singleton.mp hown]
    simp
  have hcompleted : Chronicle (Justified group failure)
      (l.log ++ [.completed r.id result]) :=
    h.justified.snoc trivial
  have hstarted : .started r.id r.key (some responder) ∈ l.log := by
    rw [← hcommand]
    exact h.logged r hr
  refine ⟨⟨⟨hnumbered.ids, hnumbered.bounded, ?_⟩, ?_, ?_, ?_, ?_, ?_, ?_, ?_⟩, ?_,
    hquiet, ?_, fun k => ?_⟩
  · exact fun other hother => List.mem_append_left _ (hnumbered.logged other hother)
  · exact fun k q hq => h.nonempty k q (lookup_erase_some.mp hq).2
  · intro k job' responder' rest' hq
    obtain ⟨hk, hq⟩ := lookup_erase_some.mp hq
    have hown := h.toNumbered.own_leave_of_ne hr result (Ne.symm hk)
    obtain ⟨id, hfront⟩ := h.front k job' responder' rest' hq
    exact ⟨id, hown.trans hfront⟩
  · intro k hq other hother
    by_cases hk : k = r.key
    · subst hk
      change other ∈ (l.leave r.id result).own r.key at hother
      rw [hquiet] at hother
      cases hother
    · have hq : l.queues.lookup k = none := by
        rwa [record, lookup_erase, if_neg hk] at hq
      have hown := h.toNumbered.own_leave_of_ne hr result (Ne.symm hk)
      change other ∈ (l.leave r.id result).own k at hother
      rw [hown] at hother
      exact h.idle k hq other hother
  · intro k
    change ((l.leave r.id result).own k).length ≤ 1
    rw [own_leave]
    exact List.filter_sublist.length_le.trans (h.single k)
  · intro other hother hstale k hgroup
    have hnone := h.drained other (List.mem_of_mem_filter hother) hstale k hgroup
    rw [record, lookup_erase, hnone, ite_self]
  · simpa [record, Line.leave] using h.distinct
  · exact hcompleted.snoc (Or.inl ⟨l.log, r.id, rfl, hstarted⟩)
  · simp [record]
  · intro other hother hgroup
    rw [← Bool.not_eq_true]
    intro hstale
    have hnone := h.drained other (List.mem_of_mem_filter hother) hstale r.key
      hgroup.symm
    rw [hqueue] at hnone
    cases hnone
  · have horder := h.order k
    by_cases hk : k = r.key
    · subst hk
      simpa [record, Line.leave, waiting, hqueue] using horder
    · simpa [record, Line.leave, waiting, lookup_erase, hk, Ne.symm hk] using horder

/-- The client reports a request under its own key; a request of its own is
reported only while nobody waits for the key. -/
theorem Orderly.finish (h : Orderly group failure l) {r : Request K}
    (hr : r ∈ l.inFlight)
    (howner : r.command = none → l.queues.lookup r.key = none) (result : R)
    (refusals : ℕ → Option R) :
    Orderly group failure
      (Line.finish r.key result refusals (l.leave r.id result)) := by
  unfold Line.finish
  split
  · next hqueue => exact h.leave hr result hqueue
  · next queue hqueue =>
    change l.queues.lookup r.key = some queue at hqueue
    split
    · exact absurd rfl (h.nonempty _ _ hqueue)
    · next job responder rest =>
      obtain ⟨id, hfront⟩ := h.front _ _ _ _ hqueue
      have hcommand : r.command = some responder := by
        cases hr' : r.command with
        | none =>
            rw [howner hr'] at hqueue
            cases hqueue
        | some c =>
            have hown : r ∈ l.own r.key :=
              List.mem_filter.mpr ⟨hr, decide_eq_true ⟨rfl, by simp [hr']⟩⟩
            rw [hfront] at hown
            rw [← hr', List.mem_singleton.mp hown]
      exact (h.answerFront hr result hcommand hqueue).startNext refusals 0

/-! ### Disconnections -/

theorem waiting_of_lookup_eq_none {k : K} (h : l.queues.lookup k = none) :
    l.waiting k = [] := by
  simp [waiting, h]

theorem mem_waiting_of_lookup {k : K} (h : l.queues.lookup k = some queue)
    {job : J} {responder : ℕ} (hmem : (job, responder) ∈ queue) :
    responder ∈ l.waiting k := by
  rw [waiting, h]
  exact List.mem_map.mpr ⟨_, hmem, rfl⟩

/-- What answering one queue does. -/
theorem failQueue_spec (error : R) (l : Line K J G R) (key : K) :
    (∀ k, (failQueue error l key).queues.lookup k =
      if k = key then none else l.queues.lookup k) ∧
    (failQueue error l key).inFlight = l.inFlight ∧
    (failQueue error l key).count = l.count ∧
    (failQueue error l key).log =
      l.log ++ (l.waiting key).map fun responder => .answered key responder error := by
  unfold failQueue
  split
  · next hqueue =>
    refine ⟨fun k => ?_, rfl, rfl, by simp [waiting, hqueue]⟩
    split
    · next hk => rw [hk, hqueue]
    · rfl
  · next queue hqueue =>
    refine ⟨fun k => lookup_erase _ _ _, rfl, rfl, ?_⟩
    simp [waiting, hqueue, Function.comp_def]

theorem waiting_failQueue (error : R) (l : Line K J G R) (key k : K) :
    (failQueue error l key).waiting k = if k = key then [] else l.waiting k := by
  unfold waiting
  rw [(failQueue_spec error l key).1]
  split <;> rfl

omit [DecidableEq K] in
theorem answered_map_answered (key : K) (error : R) (responders : List ℕ) :
    answered (responders.map fun responder =>
      (.answered key responder error : LineEvent K G R)) =
        responders.map fun responder => (key, responder) := by
  simp [answered, List.filterMap_map, Function.comp_def]

theorem forKey_map (key k : K) (responders : List ℕ) :
    forKey k (responders.map fun responder => (key, responder)) =
      if key = k then responders else [] := by
  by_cases h : key = k
  · simp [forKey, h, List.filter_map, Function.comp_def]
  · simp [forKey, h, List.filter_map, Function.comp_def]

/-- What answering a list of queues does. -/
theorem foldl_failQueue (error : R) (keys : List K) (l : Line K J G R) :
    (∀ k, (keys.foldl (failQueue error) l).queues.lookup k =
      if k ∈ keys then none else l.queues.lookup k) ∧
    (keys.foldl (failQueue error) l).inFlight = l.inFlight ∧
    (keys.foldl (failQueue error) l).count = l.count ∧
    ∃ es, (keys.foldl (failQueue error) l).log = l.log ++ es ∧
      (∀ e ∈ es, ∃ key responder, e = .answered key responder error ∧
        key ∈ keys ∧ responder ∈ l.waiting key) ∧
      ∀ k, forKey k (answered es) = if k ∈ keys then l.waiting k else [] := by
  induction keys generalizing l with
  | nil => exact ⟨by simp, rfl, rfl, [], by simp⟩
  | cons key rest ih =>
      rw [List.foldl_cons]
      obtain ⟨hlookup, hinFlight, hcount, es, hlog, hes, hanswered⟩ :=
        ih (failQueue error l key)
      have hspec := failQueue_spec error l key
      refine ⟨fun k => ?_, hinFlight.trans hspec.2.1, hcount.trans hspec.2.2.1,
        ((l.waiting key).map fun responder => .answered key responder error) ++ es,
        by rw [hlog, hspec.2.2.2, List.append_assoc], ?_, fun k => ?_⟩
      · rw [hlookup, hspec.1]
        simp only [List.mem_cons]
        split <;> split <;> simp_all
      · intro e he
        rcases List.mem_append.mp he with he | he
        · obtain ⟨responder, hmem, rfl⟩ := List.mem_map.mp he
          exact ⟨key, responder, rfl, List.mem_cons_self, hmem⟩
        · obtain ⟨k, responder, heq, hk, hmem⟩ := hes e he
          rw [waiting_failQueue] at hmem
          split at hmem
          · cases hmem
          · exact ⟨k, responder, heq, List.mem_cons_of_mem _ hk, hmem⟩
      · rw [answered_append, forKey_append, hanswered, waiting_failQueue,
          answered_map_answered, forKey_map]
        by_cases hk : k = key
        · subst hk
          simp
        · simp [hk, Ne.symm hk]

variable [DecidableEq G]

/-- What answering a group does. -/
theorem failGroup_spec (group : K → G) (g : G) (error : R) (l : Line K J G R) :
    (∀ k, (l.failGroup group g error).queues.lookup k =
      if group k = g then none else l.queues.lookup k) ∧
    (l.failGroup group g error).inFlight = l.inFlight ∧
    (l.failGroup group g error).count = l.count ∧
    ∃ es, (l.failGroup group g error).log = l.log ++ es ∧
      (∀ e ∈ es, ∃ key responder, e = .answered key responder error ∧
        group key = g ∧ responder ∈ l.waiting key) ∧
      ∀ k, forKey k (answered es) = if group k = g then l.waiting k else [] := by
  have hkeys : ∀ k, k ∈ l.queues.keys.filter (fun key => group key = g) ↔
      k ∈ l.queues ∧ group k = g := by
    intro k
    rw [List.mem_filter, decide_eq_true_iff, AList.mem_keys]
  obtain ⟨hlookup, hinFlight, hcount, es, hlog, hes, hanswered⟩ :=
    foldl_failQueue error (l.queues.keys.filter fun key => group key = g) l
  refine ⟨fun k => ?_, hinFlight, hcount, es, hlog, ?_, fun k => ?_⟩
  · rw [failGroup, hlookup]
    by_cases hg : group k = g
    · rw [if_pos hg]
      split
      · rfl
      · next hk =>
        exact AList.lookup_eq_none.mpr fun hmem => hk ((hkeys k).mpr ⟨hmem, hg⟩)
    · rw [if_neg hg, if_neg fun hk => hg ((hkeys k).mp hk).2]
  · intro e he
    obtain ⟨key, responder, heq, hk, hmem⟩ := hes e he
    exact ⟨key, responder, heq, ((hkeys key).mp hk).2, hmem⟩
  · rw [hanswered]
    by_cases hg : group k = g
    · rw [if_pos hg]
      split
      · rfl
      · next hk =>
        have hnone : l.queues.lookup k = none :=
          AList.lookup_eq_none.mpr fun hmem => hk ((hkeys k).mpr ⟨hmem, hg⟩)
        exact (waiting_of_lookup_eq_none hnone).symm
    · rw [if_neg hg, if_neg fun hk => hg ((hkeys k).mp hk).2]

/-- The requests of a group after its disconnection. -/
theorem own_map_stale (g : G) (k : K) :
    (l.inFlight.map fun r =>
      if group r.key = g then { r with stale := true } else r).filter
        (fun r => r.key = k ∧ r.command.isSome) =
      if group k = g then (l.own k).map fun r => { r with stale := true }
      else l.own k := by
  rw [List.filter_map]
  have hpred : ((fun r : Request K => decide (r.key = k ∧ r.command.isSome = true)) ∘
      fun r => if group r.key = g then { r with stale := true } else r) =
        fun r => decide (r.key = k ∧ r.command.isSome = true) := by
    funext r
    simp only [Function.comp_apply]
    split <;> rfl
  rw [hpred]
  change (l.own k).map _ = _
  have hkey : ∀ r ∈ l.own k, r.key = k :=
    fun r hr => (of_decide_eq_true (List.mem_filter.mp hr).2).1
  split
  · next hg => exact List.map_congr_left fun r hr => by rw [hkey r hr, if_pos hg]
  · next hg =>
    refine (List.map_congr_left fun r hr => ?_).trans (List.map_id _)
    rw [hkey r hr, if_neg hg]
    rfl

omit [DecidableEq K] in
/-- Marking requests leaves their numbers alone. -/
theorem Numbered.mark (h : Numbered l) (g : G) {l' : Line K J G R}
    (hinFlight : l'.inFlight = l.inFlight.map fun r =>
      if group r.key = g then { r with stale := true } else r)
    (hcount : l'.count = l.count) (hlog : ∀ e ∈ l.log, e ∈ l'.log) :
    Numbered l' := by
  refine ⟨?_, ?_, ?_⟩
  · rw [hinFlight, List.map_map]
    have hids : (Request.id ∘ fun r : Request K =>
        if group r.key = g then { r with stale := true } else r) = Request.id := by
      funext r
      simp only [Function.comp_apply]
      split <;> rfl
    rw [hids]
    exact h.ids
  · rw [hinFlight, hcount]
    intro r hr
    obtain ⟨old, hold, rfl⟩ := List.mem_map.mp hr
    split <;> exact h.bounded old hold
  · rw [hinFlight]
    intro r hr
    obtain ⟨old, hold, rfl⟩ := List.mem_map.mp hr
    refine hlog _ ?_
    split <;> exact h.logged old hold

/-- A group is disconnected and its commands are answered. -/
theorem Orderly.failGroup (h : Orderly group failure l) (g : G) :
    Orderly group failure
      ((l.disconnect group g).failGroup group g (failure g)) := by
  unfold Line.disconnect
  set marked : Line K J G R := { l with
    inFlight := l.inFlight.map fun r =>
      if group r.key = g then { r with stale := true } else r
    log := l.log ++ [.disconnected g] } with hmarked
  obtain ⟨hlookup, hinFlight, hcount, es, hlog, hes, hanswered⟩ :=
    failGroup_spec group g (failure g) marked
  have hown : ∀ k, (marked.failGroup group g (failure g)).own k =
      if group k = g then (l.own k).map fun r => { r with stale := true }
      else l.own k := by
    intro k
    rw [own, hinFlight]
    exact own_map_stale g k
  have hasked : asked es = [] := by
    refine List.filterMap_eq_nil_iff.mpr fun e he => ?_
    obtain ⟨key, responder, rfl, -⟩ := hes e he
    rfl
  have hkept : ∀ e ∈ l.log, e ∈ (marked.failGroup group g (failure g)).log := by
    intro e he
    rw [hlog]
    exact List.mem_append_left _ (List.mem_append_left _ he)
  refine ⟨⟨h.toNumbered.mark g hinFlight hcount hkept, ?_, ?_, ?_, ?_, ?_, ?_, ?_⟩,
    fun k => ?_⟩
  · intro k q hq
    rw [hlookup] at hq
    split at hq
    · cases hq
    · exact h.nonempty k q hq
  · intro k job responder rest hq
    rw [hlookup] at hq
    split at hq
    · cases hq
    · next hg =>
      rw [hown, if_neg hg]
      exact h.front k job responder rest hq
  · intro k hq r hr
    rw [hown] at hr
    split at hr
    · obtain ⟨old, -, rfl⟩ := List.mem_map.mp hr
      rfl
    · next hg =>
      rw [hlookup, if_neg hg] at hq
      exact h.idle k hq r hr
  · intro k
    rw [hown]
    split
    · rw [List.length_map]
      exact h.single k
    · exact h.single k
  · rw [hinFlight, hmarked]
    intro r hr hstale k hgroup
    rw [hlookup]
    split
    · rfl
    · next hg =>
      obtain ⟨old, hold, rfl⟩ := List.mem_map.mp hr
      by_cases hold' : group old.key = g
      · rw [if_pos hold'] at hgroup
        exact absurd (hgroup.trans hold') hg
      · rw [if_neg hold'] at hstale hgroup
        exact h.drained old hold hstale k hgroup
  · rw [hlog, hmarked, asked_append, hasked]
    simpa using h.distinct
  · rw [hlog]
    have hdisconnected : Chronicle (Justified group failure) marked.log :=
      h.justified.snoc trivial
    refine hdisconnected.append fun between e he => ?_
    obtain ⟨key, responder, rfl, rfl, hwaits⟩ := hes e he
    -- what waits was asked for before
    refine Or.inr (Or.inr ⟨l.log, between, by simp [hmarked], ?_, rfl⟩)
    rw [← mem_forKey, ← h.order key]
    exact List.mem_append_right _ hwaits
  · have horder := h.order k
    have hwaiting : (marked.failGroup group g (failure g)).waiting k =
        if group k = g then [] else l.waiting k := by
      rw [waiting, hlookup]
      split <;> rfl
    rw [hlog, answered_append, forKey_append, hanswered, asked_append, hasked,
      hwaiting]
    by_cases hg : group k = g
    · simpa [hg, hmarked, waiting] using horder
    · simpa [hg, hmarked, waiting] using horder

omit [DecidableEq G] in
theorem orderly_empty (group : K → G) (failure : G → R) :
    Orderly group failure (empty : Line K J G R) := by
  refine ⟨⟨⟨?_, ?_, ?_⟩, ?_, ?_, ?_, ?_, ?_, ?_, Chronicle.nil⟩, ?_⟩ <;>
    simp [empty, own, waiting]

end Steps

/-! ## What follows -/

section Consequences

variable {group : K → G} {failure : G → R} {l : Line K J G R}

theorem count_forKey (key : K) (responder : ℕ) (responders : List (K × ℕ)) :
    (forKey key responders).count responder = responders.count (key, responder) := by
  induction responders with
  | nil => rfl
  | cons e rest ih =>
      obtain ⟨k, r⟩ := e
      rw [← List.singleton_append, forKey_append, List.count_append, ih,
        List.count_append, forKey_singleton]
      congr 1
      by_cases hk : k = key
      · subst hk
        simp [List.count_singleton]
      · simp [hk]

/-- No responder is answered twice. -/
theorem Orderly.nodup_answered (h : Orderly group failure l) :
    ((answered l.log).map Prod.snd).Nodup := by
  have hmem : ∀ e ∈ answered l.log, e ∈ asked l.log := by
    rintro ⟨key, responder⟩ he
    rw [← mem_forKey, ← h.order key]
    exact List.mem_append_left _ (mem_forKey.mpr he)
  have hnodup : (answered l.log).Nodup := by
    refine List.nodup_iff_count_le_one.mpr fun ⟨key, responder⟩ => ?_
    calc
      (answered l.log).count (key, responder) =
          (forKey key (answered l.log)).count responder :=
        (count_forKey _ _ _).symm
      _ ≤ (forKey key (asked l.log)).count responder := by
        rw [← h.order key, List.count_append]
        exact Nat.le_add_right _ _
      _ = (asked l.log).count (key, responder) := count_forKey _ _ _
      _ ≤ 1 := List.nodup_iff_count_le_one.mp h.distinct.of_map _
  refine List.Nodup.map_on (fun a ha b hb hresponder => ?_) hnodup
  exact List.inj_on_of_nodup_map h.distinct (hmem a ha) (hmem b hb) hresponder

/-- When no request of a key is in flight, its commands were answered. -/
theorem Orderly.answered_of_quiet (h : Orderly group failure l) {key : K}
    (hquiet : l.own key = []) :
    forKey key (answered l.log) = forKey key (asked l.log) := by
  rw [← h.order key]
  suffices hwaiting : l.waiting key = [] by rw [hwaiting, List.append_nil]
  cases hqueue : l.queues.lookup key with
  | none => exact waiting_of_lookup_eq_none hqueue
  | some queue =>
      cases queue with
      | nil => exact absurd rfl (h.nonempty key [] hqueue)
      | cons first rest =>
          obtain ⟨id, hfront⟩ := h.front key first.1 first.2 rest hqueue
          rw [hquiet] at hfront
          cases hfront

/-! ## What finishing a key leaves alone -/

theorem startNext_frame (key : K) (refusals : ℕ → Option R) (n : ℕ)
    (queue : List (J × ℕ)) (l : Line K J G R) :
    l.log <+: (startNext key refusals n queue l).log ∧
    l.inFlight <+: (startNext key refusals n queue l).inFlight ∧
    ∀ k, k ≠ key →
      (startNext key refusals n queue l).queues.lookup k = l.queues.lookup k ∧
      (startNext key refusals n queue l).own k = l.own k := by
  induction queue generalizing l n with
  | nil => exact ⟨List.prefix_rfl, List.prefix_rfl, fun k _ => ⟨rfl, rfl⟩⟩
  | cons first rest ih =>
      obtain ⟨job, responder⟩ := first
      rw [startNext]
      split
      · refine ⟨List.prefix_append _ _, List.prefix_append _ _, fun k hk => ⟨?_, ?_⟩⟩
        · exact (lookup_insert _ _ _ _).trans (if_neg hk)
        · refine (own_start responder k).trans ?_
          rw [if_neg (Ne.symm hk), List.append_nil]
      · next error _ =>
        obtain ⟨hlog, hinFlight, hothers⟩ := ih (n + 1)
          ((l.record (.refused responder error)).record
            (.answered key responder error))
        refine ⟨List.IsPrefix.trans ?_ hlog, hinFlight, hothers⟩
        simp [record]

theorem finish_frame (key : K) (result : R) (refusals : ℕ → Option R)
    (l : Line K J G R) :
    l.inFlight <+: (l.finish key result refusals).inFlight ∧
    ∀ k, k ≠ key →
      (l.finish key result refusals).queues.lookup k = l.queues.lookup k ∧
      (l.finish key result refusals).own k = l.own k := by
  unfold finish
  split
  · exact ⟨List.prefix_rfl, fun k _ => ⟨rfl, rfl⟩⟩
  · next queue _ =>
    split
    · exact ⟨List.prefix_rfl, fun k hk => ⟨(lookup_erase _ _ _).trans (if_neg hk), rfl⟩⟩
    · next responder rest _ =>
      obtain ⟨-, hinFlight, hothers⟩ := startNext_frame key refusals 0 rest
        ({ l with queues := l.queues.erase key }.record
          (.answered key responder result))
      refine ⟨hinFlight, fun k hk => ?_⟩
      obtain ⟨hlookup, hown⟩ := hothers k hk
      exact ⟨hlookup.trans ((lookup_erase _ _ _).trans (if_neg hk)), hown⟩

theorem finish_of_lookup_eq_none {key : K} (h : l.queues.lookup key = none)
    (result : R) (refusals : ℕ → Option R) : l.finish key result refusals = l := by
  simp [finish, h]

/-- The front is the first to be answered. -/
theorem finish_answers {key : K} {job : J} {responder : ℕ} {rest : List (J × ℕ)}
    (h : l.queues.lookup key = some ((job, responder) :: rest)) (result : R)
    (refusals : ℕ → Option R) :
    l.log ++ [.answered key responder result] <+:
      (l.finish key result refusals).log := by
  simp only [finish, h]
  exact (startNext_frame key refusals 0 rest
    ({ l with queues := l.queues.erase key }.record
      (.answered key responder result))).1

/-! ## The client starts no requests of its own -/

/-- Every request was started for a command. -/
def Commanded (l : Line K J G R) : Prop :=
  ∀ r ∈ l.inFlight, r.command.isSome = true

omit [DecidableEq K] in
theorem Commanded.start (h : Commanded l) (key : K) (responder : ℕ) :
    Commanded (l.start key (some responder)) := by
  intro r hr
  rcases List.mem_append.mp hr with hr | hr
  · exact h r hr
  · rw [List.mem_singleton.mp hr]
    rfl

omit [DecidableEq K] in
theorem Commanded.congr {l' : Line K J G R} (h : Commanded l)
    (hl : l'.inFlight = l.inFlight) : Commanded l' := by
  intro r hr
  rw [hl] at hr
  exact h r hr

theorem Commanded.startNext (h : Commanded l) (key : K)
    (refusals : ℕ → Option R) (n : ℕ) (queue : List (J × ℕ)) :
    Commanded (startNext key refusals n queue l) := by
  induction queue generalizing l n with
  | nil => exact h
  | cons first rest ih =>
      obtain ⟨job, responder⟩ := first
      rw [Line.startNext]
      split
      · exact h.start key responder
      · refine ih ?_ (n + 1)
        exact h.congr rfl

omit [DecidableEq K] in
theorem Commanded.record (h : Commanded l) (e : LineEvent K G R) :
    Commanded (l.record e) :=
  h.congr rfl

theorem Commanded.ask (h : Commanded l) (key : K) (job : J) (responder : ℕ)
    (refusal : Option R) : Commanded (l.ask key job responder refusal) := by
  cases hqueue : l.queues.lookup key with
  | none =>
      rw [ask_of_lookup_eq_none job responder refusal hqueue]
      exact h.startNext key _ 0 _
  | some queue => exact h.congr (by simp [Line.ask, hqueue])

omit [DecidableEq K] in
theorem Commanded.leave (h : Commanded l) (id : ℕ) (result : R) :
    Commanded (l.leave id result) :=
  fun r hr => h r (List.mem_of_mem_filter hr)

theorem Commanded.finish (h : Commanded l) (key : K) (result : R)
    (refusals : ℕ → Option R) : Commanded (l.finish key result refusals) := by
  unfold Line.finish
  split
  · exact h
  · split
    · exact h
    · refine Commanded.startNext ?_ key refusals 0 _
      exact h.congr rfl

theorem Commanded.failGroup [DecidableEq G] (h : Commanded l) (g : G) (error : R) :
    Commanded ((l.disconnect group g).failGroup group g error) := by
  intro r hr
  rw [(failGroup_spec group g error _).2.1] at hr
  obtain ⟨old, hold, rfl⟩ := List.mem_map.mp hr
  split <;> exact h old hold

/-- All requests of a key are those of its commands. -/
theorem Commanded.own_eq (h : Commanded l) (key : K) :
    l.own key = l.inFlight.filter fun r => r.key = key := by
  refine List.filter_congr fun r hr => ?_
  simp [h r hr]

/-! ## The loop of `finish` -/

/-- Number of attempts to start a request for a command. -/
def attempts (log : List (LineEvent K G R)) : ℕ :=
  log.countP fun
    | .started _ _ (some _) => true
    | .refused _ _ => true
    | _ => false

@[simp] def refusalOf : LineEvent K G R → Option R
  | .refused _ result => some result
  | _ => none

/-- All refusals so far. -/
def refused (log : List (LineEvent K G R)) : List R :=
  log.filterMap refusalOf

/-- What is refused between two logs is refused with these results, attempt by
attempt. -/
def RefusedWith (refusals : ℕ → Option R) (log log' : List (LineEvent K G R)) : Prop :=
  ∃ results, refused log' = refused log ++ results ∧
    ∀ n result, results[n]? = some result → refusals n = some result

omit [DecidableEq K] in
theorem refused_append (a b : List (LineEvent K G R)) :
    refused (a ++ b) = refused a ++ refused b :=
  List.filterMap_append

omit [DecidableEq K] in
theorem refused_snoc {log : List (LineEvent K G R)} {e : LineEvent K G R}
    (h : refusalOf e = none) : refused (log ++ [e]) = refused log := by
  rw [refused_append, refused, refused, List.filterMap_cons_none h,
    List.filterMap_nil, List.append_nil]

omit [DecidableEq K] in
theorem RefusedWith.of_eq {refusals : ℕ → Option R}
    {log log' : List (LineEvent K G R)} (h : refused log' = refused log) :
    RefusedWith refusals log log' :=
  ⟨[], by rw [h, List.append_nil], nofun⟩

omit [DecidableEq K] in
/-- Nothing is refused before the first attempt. -/
theorem RefusedWith.trans_left {refusals : ℕ → Option R}
    {log log' log'' : List (LineEvent K G R)} (h : refused log' = refused log)
    (hrefused : RefusedWith refusals log' log'') : RefusedWith refusals log log'' := by
  obtain ⟨results, hresults, hown⟩ := hrefused
  exact ⟨results, by rw [hresults, h], hown⟩

theorem refusedWith_startNext (key : K) (refusals : ℕ → Option R) (n : ℕ)
    (queue : List (J × ℕ)) (l : Line K J G R) :
    RefusedWith (fun k => refusals (n + k)) l.log
      (startNext key refusals n queue l).log := by
  induction queue generalizing l n with
  | nil => exact .of_eq rfl
  | cons first rest ih =>
      obtain ⟨job, responder⟩ := first
      rw [startNext]
      split
      · exact .of_eq (refused_snoc rfl)
      · next error hrefused =>
        obtain ⟨results, hresults, hown⟩ := ih (n + 1)
          ((l.record (.refused responder error)).record
            (.answered key responder error))
        refine ⟨error :: results, ?_, fun k result hk => ?_⟩
        · rw [hresults]
          simp [record, refused]
        · cases k with
          | zero =>
              rw [List.getElem?_cons_zero] at hk
              rw [← hk]
              exact hrefused
          | succ k =>
              rw [List.getElem?_cons_succ] at hk
              have hresult : refusals (n + 1 + k) = some result := hown k result hk
              rwa [Nat.add_assoc, Nat.add_comm 1] at hresult

theorem refusedWith_ask (key : K) (job : J) (responder : ℕ) (refusal : Option R)
    (l : Line K J G R) :
    RefusedWith (fun _ => refusal) l.log (l.ask key job responder refusal).log := by
  cases hqueue : l.queues.lookup key with
  | none =>
      rw [ask_of_lookup_eq_none job responder refusal hqueue]
      exact refusedWith_startNext key (fun _ => refusal) 0 _ l
  | some queue => exact .of_eq (by simp [ask, hqueue])

/-- Finishing hands out the client's own refusals. -/
theorem refusedWith_finish (key : K) (result : R) (refusals : ℕ → Option R)
    (l : Line K J G R) :
    RefusedWith refusals l.log (l.finish key result refusals).log := by
  unfold finish
  split
  · exact .of_eq rfl
  · split
    · exact .of_eq rfl
    · next responder rest _ =>
      have hrefused := refusedWith_startNext key refusals 0 rest
        ({ l with queues := l.queues.erase key }.record
          (.answered key responder result))
      simp only [Nat.zero_add] at hrefused
      exact hrefused.trans_left (refused_snoc rfl)

/-- Answering a group refuses nothing. -/
theorem refused_failGroup [DecidableEq G] (g : G) (error : R) (l : Line K J G R) :
    refused (l.failGroup group g error).log = refused l.log := by
  obtain ⟨-, -, -, es, hlog, hes, -⟩ := failGroup_spec group g error l
  have hnone : refused es = [] := by
    refine List.filterMap_eq_nil_iff.mpr fun e he => ?_
    obtain ⟨key, responder, rfl, -⟩ := hes e he
    rfl
  rw [hlog, refused_append, hnone, List.append_nil]

/-! ## A line that serves its commands -/

/-- Every queue has its front, and only that, in flight; commands are answered
once, in order and with their own outcome; and finishing a key ends. -/
structure Served (group : K → G) (failure : G → R) (l : Line K J G R) : Prop where
  front : ∀ key queue, l.queues.lookup key = some queue →
    ∃ job responder rest id, queue = (job, responder) :: rest ∧
      (l.inFlight.filter fun r => r.key = key) = [⟨id, key, some responder, false⟩]
  once : ((answered l.log).map Prod.snd).Nodup
  order : ∀ key,
    forKey key (answered l.log) ++ l.waiting key = forKey key (asked l.log)
  settled : l.inFlight = [] →
    ∀ key, forKey key (answered l.log) = forKey key (asked l.log)
  justified : Chronicle (Justified group failure) l.log
  ends : ∀ key result refusals, attempts (l.finish key result refusals).log ≤
    attempts l.log + (l.waiting key).length

end Consequences

end Line

end Connexa
