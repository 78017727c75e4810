import Connexa.Support.Linearize

/-!
# Jobs over a transactional store

Any number of jobs run programs over one store.  A transaction that reads sees the
store as it was when it began; one that writes works on its own copy, which
becomes the store when it is committed.  Only one job writes at a time.  Every
operation may fail, and a job may vanish at any point.

`Atomic` is what makes the jobs look like an `Object` whose calls may fail: a
call takes effect once, at its commit, or fails.
-/

namespace Connexa

/-- Operations on a store with queries `Q`. -/
inductive TxOp (Q : Type) where
  /-- Anything that leaves the store alone. -/
  | prepare
  | beginRead
  | beginWrite
  /-- A transaction that waits for its turn to write until the first query. -/
  | beginDeferred
  | query (q : Q)
  | commit
  | abort

/-- Replies, with faults of type `F`.  A commit says if it was carried out. -/
@[reducible] def TxReply {Q : Type} (F : Type) (R : Q → Type) : TxOp Q → Type
  | .query q => Except F (R q)
  | .commit => Except F Bool
  | _ => Except F Unit

/-- The transaction of a job. -/
inductive Session (δ : Type) where
  | idle
  | reading (snapshot : δ)
  | deferred
  | writing (copy : δ)

/-- What queries reply and make of the data, and what may become of commits. -/
structure TxStore (Q : Type) (R : Q → Type) (δ : Type) where
  run : (q : Q) → δ → R q × δ
  /-- A commit that failed may have been carried out. -/
  torn : Prop
  /-- The store may decline a commit. -/
  declines : Prop

namespace TxStore

variable {Q : Type} {R : Q → Type} {δ F : Type}

/-- A step of a job's transaction. -/
def Step (D : TxStore Q R δ) : (o : TxOp Q) → δ → Session δ → TxReply F R o →
    δ → Session δ → Prop
  | .prepare, d, s, _, d', s' => d' = d ∧ s' = s
  | .beginRead, d, s, .ok _, d', s' => s = .idle ∧ d' = d ∧ s' = .reading d
  | .beginRead, d, s, .error _, d', s' => d' = d ∧ s' = s
  | .beginWrite, d, s, .ok _, d', s' => s = .idle ∧ d' = d ∧ s' = .writing d
  | .beginWrite, d, s, .error _, d', s' => d' = d ∧ s' = s
  | .beginDeferred, d, s, .ok _, d', s' => s = .idle ∧ d' = d ∧ s' = .deferred
  | .beginDeferred, d, s, .error _, d', s' => d' = d ∧ s' = s
  | .query q, d, .reading c, .ok x, d', s' =>
      d' = d ∧ x = (D.run q c).1 ∧ s' = .reading c
  | .query q, d, .deferred, .ok x, d', s' =>
      d' = d ∧ x = (D.run q d).1 ∧ s' = .writing (D.run q d).2
  | .query q, d, .writing c, .ok x, d', s' =>
      d' = d ∧ x = (D.run q c).1 ∧ s' = .writing (D.run q c).2
  | .query _, _, .idle, .ok _, _, _ => False
  -- a failed write leaves the copy in any state
  | .query _, d, .writing _, .error _, d', s' => d' = d ∧ ∃ c, s' = .writing c
  | .query _, d, s, .error _, d', s' => d' = d ∧ s' = s
  | .commit, d, .writing c, .ok b, d', s' =>
      (b = false → D.declines) ∧ d' = (if b then c else d) ∧ s' = .idle
  | .commit, d, .deferred, .ok b, d', s' =>
      (b = false → D.declines) ∧ d' = d ∧ s' = .idle
  | .commit, d, .writing c, .error _, d', s' =>
      (d' = d ∨ D.torn ∧ d' = c) ∧ s' = .idle
  | .commit, d, _, _, d', s' => d' = d ∧ s' = .idle
  | .abort, d, _, _, d', s' => d' = d ∧ s' = .idle

/-- The operation needs that nobody writes. -/
def Waits : TxOp Q → Session δ → Prop
  | .beginWrite, _ => True
  | .query _, .deferred => True
  | _, _ => False

/-- A job that is writing was writing before, or had to wait for its turn. -/
theorem Step.writing {D : TxStore Q R δ} {o : TxOp Q} {d d' copy : δ}
    {s : Session δ} {r : TxReply F R o}
    (h : D.Step o d s r d' (.writing copy)) :
    (∃ c, s = .writing c) ∨ Waits o s := by
  cases o with
  | prepare => exact Or.inl ⟨copy, h.2.symm⟩
  | beginWrite => exact Or.inr trivial
  | beginRead =>
      cases r with
      | ok => exact absurd h.2.2 (by simp)
      | error e => exact Or.inl ⟨copy, h.2.symm⟩
  | beginDeferred =>
      cases r with
      | ok => exact absurd h.2.2 (by simp)
      | error e => exact Or.inl ⟨copy, h.2.symm⟩
  | query q =>
      cases s with
      | idle =>
          cases r with
          | ok => exact h.elim
          | error e => exact absurd h.2 (by simp)
      | reading c =>
          cases r with
          | ok => exact absurd h.2.2 (by simp)
          | error e => exact absurd h.2 (by simp)
      | deferred => exact Or.inr trivial
      | writing c => exact Or.inl ⟨c, rfl⟩
  | commit =>
      cases s with
      | writing c => exact Or.inl ⟨c, rfl⟩
      | deferred =>
          cases r with
          | ok => exact absurd h.2.2 (by simp)
          | error e => exact absurd h.2 (by simp)
      | _ => exact absurd h.2 (by simp)
  | abort => exact absurd h.2 (by simp)

end TxStore

/-! ## Jobs -/

variable {Q : Type} {R : Q → Type} {δ F κ μ : Type} {Res : κ → Type}

/-- A call in progress. -/
structure TxJob (F : Type) (R : Q → Type) (Res : κ → Type) (δ : Type) where
  call : κ
  session : Session δ
  rest : Prog (TxOp Q) (TxReply F R) (Res call)

/-- The programs of the calls. -/
structure TxSystem (F : Type) (R : Q → Type) (Res : κ → Type) (δ : Type) where
  store : TxStore Q R δ
  program : (c : κ) → Prog (TxOp Q) (TxReply F R) (Res c)

namespace TxSystem

/-- The data that are committed, and the calls in progress. -/
structure State (S : TxSystem F R Res δ) where
  committed : δ
  jobs : ℕ → Option (TxJob F R Res δ)
  history : List (JobEvent κ Res)

variable (S : TxSystem F R Res δ)

def initial (d : δ) : S.State :=
  ⟨d, fun _ => none, []⟩

/-- The job is writing. -/
def Writes (jobs : ℕ → Option (TxJob F R Res δ)) (i : ℕ) : Prop :=
  ∃ j copy, jobs i = some j ∧ j.session = .writing copy

inductive Step : S.State → S.State → Prop where
  | call {s : S.State} (i : ℕ) (c : κ) (hfree : s.jobs i = none) :
      Step s { s with
        jobs := Function.update s.jobs i (some ⟨c, .idle, S.program c⟩)
        history := s.history ++ [.called i c] }
  | run {s : S.State} {i : ℕ} {c : κ} {session session' : Session δ} {o : TxOp Q}
      {k : TxReply F R o → Prog (TxOp Q) (TxReply F R) (Res c)}
      {r : TxReply F R o} {d : δ} (hjob : s.jobs i = some ⟨c, session, .call o k⟩)
      (hturn : TxStore.Waits o session → ∀ j, ¬Writes s.jobs j)
      (hstep : S.store.Step o s.committed session r d session') :
      Step s { s with
        committed := d
        jobs := Function.update s.jobs i (some ⟨c, session', k r⟩) }
  -- the transaction that is still open is dropped
  | finish {s : S.State} {i : ℕ} {c : κ} {session : Session δ} {r : Res c}
      (hjob : s.jobs i = some ⟨c, session, .done r⟩) :
      Step s { s with
        jobs := Function.update s.jobs i none
        history := s.history ++ [.returned i c r] }
  /-- The call is given up, or lost with its process. -/
  | vanish {s : S.State} (i : ℕ) :
      Step s { s with jobs := Function.update s.jobs i none }

/-- The states that runs from some data reach. -/
def Reachable (d : δ) (s : S.State) : Prop :=
  Relation.ReflTransGen S.Step (S.initial d) s

/-- Only one job writes. -/
def Single (jobs : ℕ → Option (TxJob F R Res δ)) : Prop :=
  ∀ i j, Writes jobs i → Writes jobs j → i = j

section Single

variable {jobs : ℕ → Option (TxJob F R Res δ)} {i : ℕ} {x : Option (TxJob F R Res δ)}

theorem writes_update_self :
    Writes (Function.update jobs i x) i ↔
      ∃ j copy, x = some j ∧ j.session = .writing copy := by
  simp [Writes]

theorem writes_update_of_ne {j : ℕ} (hj : j ≠ i) :
    Writes (Function.update jobs i x) j ↔ Writes jobs j := by
  simp [Writes, hj]

/-- A job that is alone and does not write. -/
theorem not_writes_alone {job : TxJob F R Res δ} (hi : jobs i = some job)
    (hjob : ∀ copy, job.session ≠ .writing copy) (hnone : ∀ k, k ≠ i → jobs k = none)
    (k : ℕ) : ¬Writes jobs k := by
  rintro ⟨job', copy, hk, hcopy⟩
  by_cases hki : k = i
  · subst hki
    rw [hi] at hk
    cases hk
    exact hjob copy hcopy
  · rw [hnone k hki] at hk
    cases hk

/-- A job may go on writing, or start if nobody does. -/
theorem Single.update (h : Single jobs)
    (hx : ∀ j copy, x = some j → j.session = .writing copy →
      Writes jobs i ∨ ∀ k, ¬Writes jobs k) : Single (Function.update jobs i x) := by
  have hother : ∀ k, k ≠ i → Writes (Function.update jobs i x) i →
      ¬Writes (Function.update jobs i x) k := by
    intro k hk hi hwrites
    obtain ⟨j, copy, hj, hcopy⟩ := writes_update_self.mp hi
    rw [writes_update_of_ne hk] at hwrites
    rcases hx j copy hj hcopy with hwriter | hnone
    · exact hk (h k i hwrites hwriter)
    · exact hnone k hwrites
  intro j k hj hk
  by_cases hji : j = i
  · by_cases hki : k = i
    · rw [hji, hki]
    · exact absurd hk (hother k hki (hji ▸ hj))
  · by_cases hki : k = i
    · exact absurd hj (hother j hji (hki ▸ hk))
    · exact h j k ((writes_update_of_ne hji).mp hj) ((writes_update_of_ne hki).mp hk)

end Single

end TxSystem

/-! ## Objects that fail -/

/-- How calls may go wrong. -/
structure Failures (O : Object κ Res μ) where
  /-- The results that report a failure. -/
  reports : (c : κ) → Res c → Prop
  /-- A call that has taken effect may report a failure too. -/
  torn : Prop
  /-- The calls that may get their answer without taking effect. -/
  skips : κ → Prop

/-- The call changes nothing. -/
def Object.ReadOnly (O : Object κ Res μ) (c : κ) : Prop :=
  ∀ m, (O.answer c m).2 = m

namespace Failures

variable {O : Object κ Res μ} (X : Failures O)

/-- Steps of the object when calls may fail or vanish. -/
inductive Step : O.State → O.State → Prop where
  | step {a b : O.State} (h : O.Step a b) : Step a b
  | fail {a : O.State} {i : ℕ} {c : κ} {r : Res c} (hjob : a.jobs i = some ⟨c, none⟩)
      (hr : X.reports c r) :
      Step a { a with jobs := Function.update a.jobs i (some ⟨c, some r⟩) }
  /-- The call has taken effect and still fails. -/
  | lose {a : O.State} {i : ℕ} {c : κ} {x r : Res c}
      (hjob : a.jobs i = some ⟨c, some x⟩) (hr : X.reports c r)
      (htorn : X.torn ∨ O.ReadOnly c) :
      Step a { a with jobs := Function.update a.jobs i (some ⟨c, some r⟩) }
  | skip {a : O.State} {i : ℕ} {c : κ} (hjob : a.jobs i = some ⟨c, none⟩)
      (hc : X.skips c) :
      Step a { a with
        jobs := Function.update a.jobs i (some ⟨c, some (O.answer c a.value).1⟩) }
  | vanish {a : O.State} (i : ℕ) :
      Step a { a with jobs := Function.update a.jobs i none }

def Reachable (m : μ) (a : O.State) : Prop :=
  Relation.ReflTransGen X.Step (O.initial m) a

end Failures

/-! ## What makes jobs look atomic -/

/-- How far a call has come. -/
inductive Phase (μ δ ρ : Type) where
  | before
  /-- The answer is settled; the snapshot is still read. -/
  | reading (snapshot : δ) (r : ρ)
  | deferred
  /-- The copy was taken when the object had the value `m`. -/
  | writing (m : μ) (copy : δ)
  | after (r : ρ)
  /-- The commit was carried out and reported a fault. -/
  | failed
  /-- Something that does not fit an atomic call. -/
  | stuck

def Phase.Sound {μ δ ρ : Type} : Phase μ δ ρ → Prop
  | .stuck => False
  | _ => True

/-- How the calls of a system are seen. -/
structure Atomic (S : TxSystem F R Res δ) (O : Object κ Res μ) where
  /-- The results that callers do not tell apart. -/
  same : (c : κ) → Res c → Res c → Prop
  reports : (c : κ) → Res c → Prop
  /-- The committed data stand for this value. -/
  rep : μ → δ → Prop
  /-- The calls that do not look whether their commit was carried out. -/
  quiet : κ → Prop
  same_refl : ∀ c r, same c r r

namespace Atomic

variable {S : TxSystem F R Res δ} {O : Object κ Res μ} (A : Atomic S O)

/-- The failures that callers may see. -/
def failures : Failures O where
  reports := A.reports
  torn := S.store.torn
  skips := fun c => S.store.declines ∧ A.quiet c

/-- What an operation does to the phase of a call. -/
def Advance (c : κ) : (o : TxOp Q) → Phase μ δ (Res c) → TxReply F R o →
    Phase μ δ (Res c) → Prop
  | .prepare, p, _, p' => p' = p
  | .beginRead, .before, .ok _, p' =>
      O.ReadOnly c ∧ (∃ m d, A.rep m d ∧ p' = .reading d (O.answer c m).1) ∨
        ¬O.ReadOnly c ∧ p' = .stuck
  | .beginRead, .before, .error _, p' => p' = .before
  | .beginWrite, .before, .ok _, p' => ∃ m d, A.rep m d ∧ p' = .writing m d
  | .beginWrite, .before, .error _, p' => p' = .before
  | .beginDeferred, .before, .ok _, p' => p' = .deferred
  | .beginDeferred, .before, .error _, p' => p' = .before
  | .query q, .reading d x, .ok r, p' =>
      r = (S.store.run q d).1 ∧ p' = .reading d x
  | .query _, .reading d x, .error _, p' => p' = .reading d x
  | .query q, .deferred, .ok r, p' => ∃ m d, A.rep m d ∧
      r = (S.store.run q d).1 ∧ p' = .writing m (S.store.run q d).2
  | .query _, .deferred, .error _, p' => p' = .deferred
  | .query q, .writing m d, .ok r, p' =>
      r = (S.store.run q d).1 ∧ p' = .writing m (S.store.run q d).2
  | .query _, .writing m _, .error _, p' => ∃ d, p' = .writing m d
  | .commit, .writing m d, .ok true, p' =>
      A.rep (O.answer c m).2 d ∧ p' = .after (O.answer c m).1 ∨
        ¬A.rep (O.answer c m).2 d ∧ p' = .stuck
  | .commit, .writing m _, .ok false, p' => S.store.declines ∧
      (A.quiet c ∧ p' = .after (O.answer c m).1 ∨ ¬A.quiet c ∧ p' = .before)
  | .commit, .writing m d, .error _, p' => p' = .before ∨ S.store.torn ∧
      (A.rep (O.answer c m).2 d ∧ p' = .failed ∨
        ¬A.rep (O.answer c m).2 d ∧ p' = .stuck)
  | .commit, .deferred, .ok true, p' =>
      O.ReadOnly c ∧ (∃ m d, A.rep m d ∧ p' = .after (O.answer c m).1) ∨
        ¬O.ReadOnly c ∧ p' = .stuck
  | .commit, .deferred, .ok false, p' => S.store.declines ∧ p' = .before
  | .commit, .deferred, .error _, p' => p' = .before
  | .abort, .writing _ _, _, p' => p' = .before
  | _, _, _, p' => p' = .stuck

/-- The phases as the states of a machine. -/
def phases (c : κ) : Machine (TxOp Q) (TxReply F R) (Phase μ δ (Res c)) where
  step := A.Advance c

/-- A result and the phase in which it is returned. -/
def Ending {c : κ} (x : Res c) : Phase μ δ (Res c) → Prop
  | .reading _ r => A.same c x r ∨ A.reports c x
  | .after r => A.same c x r
  | .stuck => False
  | _ => A.reports c x

/-- The program is an atomic call from this phase on. -/
def Fits (c : κ) (p : Prog (TxOp Q) (TxReply F R) (Res c))
    (phase : Phase μ δ (Res c)) : Prop :=
  (A.phases c).Safe Phase.Sound A.Ending p phase

/-! ## The simulation -/

variable (S O) in
/-- A phase, by the transaction of the job, the value of the object and the answer
it has given. -/
inductive At (c : κ) (m : μ) :
    Session δ → Option (Res c) → Phase μ δ (Res c) → Prop where
  | before : At c m .idle none .before
  | reading {d : δ} {r : Res c} (h : O.ReadOnly c) :
      At c m (.reading d) (some r) (.reading d r)
  | deferred : At c m .deferred none .deferred
  | writing {d : δ} : At c m (.writing d) none (.writing m d)
  | after {r : Res c} : At c m .idle (some r) (.after r)
  | failed {r : Res c} (h : S.store.torn) : At c m .idle (some r) .failed

/-- The call does not notice that the object changes, unless it is writing. -/
theorem At.others {c : κ} {m m' : μ} {session : Session δ} {x : Option (Res c)}
    {phase : Phase μ δ (Res c)} (h : At S O c m session x phase)
    (hnot : ∀ copy, session ≠ .writing copy) : At S O c m' session x phase := by
  cases h with
  | before => exact .before
  | reading h => exact .reading h
  | deferred => exact .deferred
  | writing => exact absurd rfl (hnot _)
  | after => exact .after
  | failed h => exact .failed h

variable {c : κ} {m : μ} {d d' : δ} {session session' : Session δ}
  {x : Option (Res c)} {phase phase' : Phase μ δ (Res c)}

/-- After a step the object has not acted, or it has, or it has only answered. -/
inductive Moved (c : κ) (m : μ) (d d' : δ) (session session' : Session δ)
    (x : Option (Res c)) (phase : Phase μ δ (Res c)) : Prop where
  | stays (hd : d' = d) (h : At S O c m session' x phase)
  | acts (hx : x = none) (hd : A.rep (O.answer c m).2 d')
      (h : At S O c (O.answer c m).2 session' (some (O.answer c m).1) phase)
      (hm : (O.answer c m).2 = m ∨ ∃ copy, session = .writing copy)
  | skips (hx : x = none) (hd : d' = d) (hc : S.store.declines ∧ A.quiet c)
      (h : At S O c m session' (some (O.answer c m).1) phase)

section AtStep

variable (h : At S O c m session x phase)

include h

theorem At.beginRead {r : Except F Unit} (hrep : A.rep m d)
    (hok : ∀ p, A.Advance c .beginRead phase r p → p.Sound)
    (hstep : S.store.Step .beginRead d session r d' session') :
    ∃ p, A.Advance c .beginRead phase r p ∧ A.Moved c m d d' session session' x p := by
  cases r with
  | ok r =>
      obtain ⟨rfl, rfl, rfl⟩ := hstep
      cases h with
      | before =>
          by_cases hread : O.ReadOnly c
          · exact ⟨_, Or.inl ⟨hread, m, d', hrep, rfl⟩,
              .acts rfl ((hread m).symm ▸ hrep) (.reading hread) (Or.inl (hread m))⟩
          · exact (hok .stuck (Or.inr ⟨hread, rfl⟩)).elim
      | _ => exact (hok .stuck rfl).elim
  | error e =>
      obtain ⟨rfl, rfl⟩ := hstep
      cases h with
      | before => exact ⟨_, rfl, .stays rfl .before⟩
      | _ => exact (hok .stuck rfl).elim

theorem At.beginWrite {r : Except F Unit} (hrep : A.rep m d)
    (hok : ∀ p, A.Advance c .beginWrite phase r p → p.Sound)
    (hstep : S.store.Step .beginWrite d session r d' session') :
    ∃ p, A.Advance c .beginWrite phase r p ∧
      A.Moved c m d d' session session' x p := by
  cases r with
  | ok r =>
      obtain ⟨rfl, rfl, rfl⟩ := hstep
      cases h with
      | before => exact ⟨_, ⟨m, d', hrep, rfl⟩, .stays rfl .writing⟩
      | _ => exact (hok .stuck rfl).elim
  | error e =>
      obtain ⟨rfl, rfl⟩ := hstep
      cases h with
      | before => exact ⟨_, rfl, .stays rfl .before⟩
      | _ => exact (hok .stuck rfl).elim

theorem At.beginDeferred {r : Except F Unit}
    (hok : ∀ p, A.Advance c .beginDeferred phase r p → p.Sound)
    (hstep : S.store.Step .beginDeferred d session r d' session') :
    ∃ p, A.Advance c .beginDeferred phase r p ∧
      A.Moved c m d d' session session' x p := by
  cases r with
  | ok r =>
      obtain ⟨rfl, rfl, rfl⟩ := hstep
      cases h with
      | before => exact ⟨_, rfl, .stays rfl .deferred⟩
      | _ => exact (hok .stuck rfl).elim
  | error e =>
      obtain ⟨rfl, rfl⟩ := hstep
      cases h with
      | before => exact ⟨_, rfl, .stays rfl .before⟩
      | _ => exact (hok .stuck rfl).elim

theorem At.query {q : Q} {r : Except F (R q)} (hrep : A.rep m d)
    (hok : ∀ p, A.Advance c (.query q) phase r p → p.Sound)
    (hstep : S.store.Step (.query q) d session r d' session') :
    ∃ p, A.Advance c (.query q) phase r p ∧
      A.Moved c m d d' session session' x p := by
  cases r with
  | ok r =>
      cases h with
      | reading hread =>
          obtain ⟨rfl, rfl, rfl⟩ := hstep
          exact ⟨_, ⟨rfl, rfl⟩, .stays rfl (.reading hread)⟩
      | deferred =>
          obtain ⟨rfl, rfl, rfl⟩ := hstep
          exact ⟨_, ⟨m, d', hrep, rfl, rfl⟩, .stays rfl .writing⟩
      | writing =>
          obtain ⟨rfl, rfl, rfl⟩ := hstep
          exact ⟨_, ⟨rfl, rfl⟩, .stays rfl .writing⟩
      | _ => exact hstep.elim
  | error e =>
      cases h with
      | reading hread =>
          obtain ⟨rfl, rfl⟩ := hstep
          exact ⟨_, rfl, .stays rfl (.reading hread)⟩
      | deferred =>
          obtain ⟨rfl, rfl⟩ := hstep
          exact ⟨_, rfl, .stays rfl .deferred⟩
      | writing =>
          obtain ⟨rfl, copy, rfl⟩ := hstep
          exact ⟨_, ⟨copy, rfl⟩, .stays rfl .writing⟩
      | _ => exact (hok .stuck rfl).elim

end AtStep

theorem At.commitWriting {r : Except F Bool} {copy : δ}
    (hok : ∀ p, A.Advance c .commit (.writing m copy) r p → p.Sound)
    (hstep : S.store.Step .commit d (.writing copy) r d' session') :
    ∃ p, A.Advance c .commit (.writing m copy) r p ∧
      A.Moved c m d d' (.writing copy) session' none p := by
  cases r with
  | ok b =>
      obtain ⟨hdeclines, hd, rfl⟩ := hstep
      cases b with
      | true =>
          by_cases hrep : A.rep (O.answer c m).2 copy
          · exact ⟨_, Or.inl ⟨hrep, rfl⟩,
              .acts rfl (hd ▸ hrep) .after (Or.inr ⟨copy, rfl⟩)⟩
          · exact (hok .stuck (Or.inr ⟨hrep, rfl⟩)).elim
      | false =>
          have hdeclines := hdeclines rfl
          by_cases hquiet : A.quiet c
          · exact ⟨_, ⟨hdeclines, Or.inl ⟨hquiet, rfl⟩⟩,
              .skips rfl hd ⟨hdeclines, hquiet⟩ .after⟩
          · exact ⟨_, ⟨hdeclines, Or.inr ⟨hquiet, rfl⟩⟩, .stays hd .before⟩
  | error e =>
      obtain ⟨hd | ⟨htorn, rfl⟩, rfl⟩ := hstep
      · exact ⟨_, Or.inl rfl, .stays hd .before⟩
      · by_cases hrep : A.rep (O.answer c m).2 d'
        · exact ⟨_, Or.inr ⟨htorn, Or.inl ⟨hrep, rfl⟩⟩,
            .acts rfl hrep (.failed htorn) (Or.inr ⟨d', rfl⟩)⟩
        · exact (hok .stuck (Or.inr ⟨htorn, Or.inr ⟨hrep, rfl⟩⟩)).elim

theorem At.commitDeferred {r : Except F Bool} (hrep : A.rep m d)
    (hok : ∀ p, A.Advance c .commit .deferred r p → p.Sound)
    (hstep : S.store.Step .commit d .deferred r d' session') :
    ∃ p, A.Advance c .commit .deferred r p ∧
      A.Moved c m d d' .deferred session' none p := by
  cases r with
  | ok b =>
      obtain ⟨hdeclines, rfl, rfl⟩ := hstep
      cases b with
      | true =>
          by_cases hread : O.ReadOnly c
          · exact ⟨_, Or.inl ⟨hread, m, d', hrep, rfl⟩,
              .acts rfl ((hread m).symm ▸ hrep) .after (Or.inl (hread m))⟩
          · exact (hok .stuck (Or.inr ⟨hread, rfl⟩)).elim
      | false => exact ⟨_, ⟨hdeclines rfl, rfl⟩, .stays rfl .before⟩
  | error e =>
      obtain ⟨rfl, rfl⟩ := hstep
      exact ⟨_, rfl, .stays rfl .before⟩

/-- A step of a job advances its phase. -/
theorem At.step {o : TxOp Q} {r : TxReply F R o} (h : At S O c m session x phase)
    (hrep : A.rep m d) (hok : ∀ p, A.Advance c o phase r p → p.Sound)
    (hstep : S.store.Step o d session r d' session') :
    ∃ p, A.Advance c o phase r p ∧ A.Moved c m d d' session session' x p := by
  cases o with
  | prepare =>
      obtain ⟨rfl, rfl⟩ := hstep
      exact ⟨phase, rfl, .stays rfl h⟩
  | beginRead => exact h.beginRead A hrep hok hstep
  | beginWrite => exact h.beginWrite A hrep hok hstep
  | beginDeferred => exact h.beginDeferred A hok hstep
  | query q => exact h.query A hrep hok hstep
  | commit =>
      cases h with
      | writing => exact At.commitWriting A hok hstep
      | deferred => exact At.commitDeferred A hrep hok hstep
      | _ => exact (hok .stuck (by cases r <;> rfl)).elim
  | abort =>
      obtain ⟨rfl, rfl⟩ := hstep
      cases h with
      | writing => exact ⟨_, rfl, .stays rfl .before⟩
      | _ => exact (hok .stuck rfl).elim

/-- A job and a call to the object that has come as far. -/
inductive SameJob (m : μ) :
    Option (TxJob F R Res δ) → Option (Σ c, Option (Res c)) → Prop where
  | idle : SameJob m none none
  | job {c : κ} {session : Session δ} {p : Prog (TxOp Q) (TxReply F R) (Res c)}
      {x : Option (Res c)} {phase : Phase μ δ (Res c)}
      (hphase : At S O c m session x phase) (hfits : A.Fits c p phase) :
      SameJob m (some ⟨c, session, p⟩) (some ⟨c, x⟩)

/-- Only one job writes, and the committed data stand for the value. -/
structure Sim (s : S.State) (a : O.State) : Prop where
  history : List.Forall₂ (JobEvent.Same A.same) s.history a.history
  rep : A.rep a.value s.committed
  single : TxSystem.Single s.jobs
  jobs : ∀ i, A.SameJob a.value (s.jobs i) (a.jobs i)

theorem SameJob.others {m m' : μ} {x : Option (TxJob F R Res δ)}
    {y : Option (Σ c, Option (Res c))} (h : A.SameJob m x y)
    (hnot : ∀ j copy, x = some j → j.session ≠ .writing copy) :
    A.SameJob m' x y := by
  cases h with
  | idle => exact .idle
  | job hphase hfits => exact .job (hphase.others fun copy => hnot _ copy rfl) hfits

section SimStep

variable {A} {s : S.State} {a : O.State}

theorem Sim.call (h : A.Sim s a) {i : ℕ} {c : κ} (hfree : s.jobs i = none)
    (hallowed : O.allowed c) (hfits : A.Fits c (S.program c) .before) :
    ∃ a', Relation.ReflTransGen A.failures.Step a a' ∧
      A.Sim { s with
        jobs := Function.update s.jobs i (some ⟨c, .idle, S.program c⟩)
        history := s.history ++ [.called i c] } a' := by
  have hjob := h.jobs i
  rw [hfree] at hjob
  generalize hidle : a.jobs i = y at hjob
  cases hjob with
  | idle =>
      refine ⟨_, .single (.step (.call i c hidle hallowed)), ?_, h.rep, ?_, ?_⟩
      · exact List.rel_append h.history (.cons (.called i c) .nil)
      · refine h.single.update fun j copy hj hcopy => ?_
        cases hj
        cases hcopy
      · intro j
        by_cases hj : j = i
        · subst hj
          simp only [Function.update_self]
          exact .job .before hfits
        · simp only [Function.update_of_ne hj]
          exact h.jobs j

theorem Sim.run (h : A.Sim s a) {i : ℕ} {c : κ} {session session' : Session δ}
    {o : TxOp Q} {k : TxReply F R o → Prog (TxOp Q) (TxReply F R) (Res c)}
    {r : TxReply F R o} {d : δ} (hjob : s.jobs i = some ⟨c, session, .call o k⟩)
    (hturn : TxStore.Waits o session → ∀ j, ¬TxSystem.Writes s.jobs j)
    (hstep : S.store.Step o s.committed session r d session') :
    ∃ a', Relation.ReflTransGen A.failures.Step a a' ∧
      A.Sim { s with
        committed := d
        jobs := Function.update s.jobs i (some ⟨c, session', k r⟩) } a' := by
  have hsame := h.jobs i
  rw [hjob] at hsame
  generalize hy : a.jobs i = y at hsame
  have hsingle : TxSystem.Single
      (Function.update s.jobs i (some ⟨c, session', k r⟩)) := by
    refine h.single.update fun j copy hj hcopy => ?_
    cases hj
    change session' = .writing copy at hcopy
    rw [hcopy] at hstep
    rcases hstep.writing with ⟨before, hbefore⟩ | hwaits
    · exact Or.inl ⟨_, before, hjob, hbefore⟩
    · exact Or.inr (hturn hwaits)
  cases hsame with
  | job hphase hfits =>
      obtain ⟨p, hadvance, hmoved⟩ := hphase.step A h.rep
        (fun p hp => (hfits.2 r p hp).here) hstep
      have hrest : A.Fits c (k r) p := hfits.2 r p hadvance
      cases hmoved with
      | stays hd hphase' =>
          refine ⟨a, .refl, h.history, hd ▸ h.rep, hsingle, ?_⟩
          intro j
          by_cases hj : j = i
          · subst hj
            simp only [Function.update_self]
            rw [hy]
            exact .job hphase' hrest
          · simp only [Function.update_of_ne hj]
            exact h.jobs j
      | skips hx hd hskips hphase' =>
          subst hx
          refine ⟨_, .single (.skip hy hskips), h.history, hd ▸ h.rep, hsingle, ?_⟩
          intro j
          by_cases hj : j = i
          · subst hj
            simp only [Function.update_self]
            exact .job hphase' hrest
          · simp only [Function.update_of_ne hj]
            exact h.jobs j
      | acts hx hd hphase' hvalue =>
          subst hx
          refine ⟨_, .single (.step (.act hy)), h.history, hd, hsingle, ?_⟩
          intro j
          by_cases hj : j = i
          · subst hj
            simp only [Function.update_self]
            exact .job hphase' hrest
          · simp only [Function.update_of_ne hj]
            rcases hvalue with hvalue | ⟨copy, hcopy⟩
            · rw [hvalue]
              exact h.jobs j
            · -- the others do not write while this job does
              refine (h.jobs j).others A fun job copy' hjob' hcopy' => hj ?_
              exact h.single j i ⟨job, copy', hjob', hcopy'⟩ ⟨_, copy, hjob, hcopy⟩

/-- A job that ends, seen from the others. -/
theorem Sim.ends (h : A.Sim s a) (i : ℕ) :
    TxSystem.Single (Function.update s.jobs i none) ∧
      ∀ j, A.SameJob a.value (Function.update s.jobs i none j)
        (Function.update a.jobs i none j) := by
  constructor
  · refine h.single.update fun j copy hj => ?_
    cases hj
  · intro j
    by_cases hj : j = i
    · subst hj
      simp only [Function.update_self]
      exact .idle
    · simp only [Function.update_of_ne hj]
      exact h.jobs j

/-- At the end of a job the object has its result or can still fail. -/
theorem settles {i : ℕ} {c : κ} {session : Session δ} {x : Option (Res c)}
    {phase : Phase μ δ (Res c)} {r : Res c} (hy : a.jobs i = some ⟨c, x⟩)
    (hphase : At S O c a.value session x phase) (hr : A.Ending r phase) :
    ∃ r', A.same c r r' ∧ Relation.ReflTransGen A.failures.Step a
      { a with jobs := Function.update a.jobs i (some ⟨c, some r'⟩) } := by
  have hdone : ∀ r', a.jobs i = some ⟨c, some r'⟩ →
      Relation.ReflTransGen A.failures.Step a
        { a with jobs := Function.update a.jobs i (some ⟨c, some r'⟩) } := by
    intro r' hr'
    rw [← hr', Function.update_eq_self]
  cases hphase with
  | before => exact ⟨r, A.same_refl c r, .single (.fail hy hr)⟩
  | deferred => exact ⟨r, A.same_refl c r, .single (.fail hy hr)⟩
  | writing => exact ⟨r, A.same_refl c r, .single (.fail hy hr)⟩
  | @reading _ r' hread =>
      rcases hr with hsame | hreports
      · exact ⟨r', hsame, hdone r' hy⟩
      · exact ⟨r, A.same_refl c r, .single (.lose hy hreports (Or.inr hread))⟩
  | @after r' => exact ⟨r', hr, hdone r' hy⟩
  | failed htorn => exact ⟨r, A.same_refl c r, .single (.lose hy hr (Or.inl htorn))⟩

theorem Sim.finish (h : A.Sim s a) {i : ℕ} {c : κ} {session : Session δ} {r : Res c}
    (hjob : s.jobs i = some ⟨c, session, .done r⟩) :
    ∃ a', Relation.ReflTransGen A.failures.Step a a' ∧
      A.Sim { s with
        jobs := Function.update s.jobs i none
        history := s.history ++ [.returned i c r] } a' := by
  have hends := h.ends i
  have hsame := h.jobs i
  rw [hjob] at hsame
  generalize hy : a.jobs i = y at hsame
  cases hsame with
  | job hphase hfits =>
      obtain ⟨r', hsame, hsteps⟩ := settles hy hphase hfits.2
      have hfinish := hsteps.tail (.step (.finish (Function.update_self ..)))
      simp only [Function.update_idem] at hfinish
      refine ⟨_, hfinish, ?_, h.rep, hends.1, hends.2⟩
      exact List.rel_append h.history (.cons (.returned i hsame) .nil)

theorem Sim.vanish (h : A.Sim s a) (i : ℕ) :
    A.Sim { s with jobs := Function.update s.jobs i none }
      { a with jobs := Function.update a.jobs i none } :=
  ⟨h.history, h.rep, (h.ends i).1, (h.ends i).2⟩

end SimStep

/-- What callers of the jobs see, callers of the object may see, and the committed
data always stand for its value. -/
theorem refines (hallowed : ∀ c, O.allowed c)
    (hprogram : ∀ c, A.Fits c (S.program c) .before) {m : μ} {d : δ}
    (hd : A.rep m d) {s : S.State} (hs : S.Reachable d s) :
    ∃ a, A.failures.Reachable m a ∧ A.Sim s a := by
  induction hs with
  | refl =>
      refine ⟨O.initial m, .refl, .nil, hd, ?_, fun i => .idle⟩
      intro i j hi
      obtain ⟨job, copy, hjob, -⟩ := hi
      cases hjob
  | @tail s t _ hstep ih =>
      obtain ⟨a, ha, hsim⟩ := ih
      have hnext : ∃ a', Relation.ReflTransGen A.failures.Step a a' ∧ A.Sim t a' := by
        cases hstep with
        | call i c hfree => exact hsim.call hfree (hallowed c) (hprogram c)
        | run hjob hturn hstep => exact hsim.run hjob hturn hstep
        | finish hjob => exact hsim.finish hjob
        | vanish i => exact ⟨_, .single (.vanish i), hsim.vanish i⟩
      obtain ⟨a', hsteps, hsim'⟩ := hnext
      exact ⟨a', ha.trans hsteps, hsim'⟩

end Atomic

end Connexa
