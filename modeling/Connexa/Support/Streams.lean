import Mathlib.Data.PNat.Basic

/-!
# Byte streams

A source gives its content in chunks of any size, a sink takes what it is given
in pieces of any size.  Reading to the end collects the content and writing all
of a buffer writes it, whatever the sizes are.
-/

namespace Connexa

variable {α ε : Type}

/-- What is read from: the chunks that will arrive, and what follows them. -/
structure Source (α ε : Type) where
  chunks : List (List α)
  nonempty : [] ∉ chunks
  ending : Except ε Unit

namespace Source

/-- All that will arrive. -/
def content (s : Source α ε) : List α :=
  s.chunks.flatten

/-- Read into a buffer with some room. -/
def read (s : Source α ε) (room : ℕ) : Except ε (List α) × Source α ε :=
  match s with
  | ⟨[], _, ending⟩ => (ending.map fun _ => [], s)
  | ⟨chunk :: rest, hchunks, ending⟩ =>
      if h : room < chunk.length then
        have hrest : [] ∉ chunk.drop room :: rest := by
          rw [List.mem_cons, not_or] at hchunks ⊢
          refine ⟨fun hnil => ?_, hchunks.2⟩
          have hlength := congrArg List.length hnil
          rw [List.length_nil, List.length_drop] at hlength
          omega
        (.ok (chunk.take room), ⟨chunk.drop room :: rest, hrest, ending⟩)
      else
        (.ok chunk, ⟨rest, fun hnil => hchunks (List.mem_cons_of_mem _ hnil), ending⟩)

/-- A read gives a first part of the content. -/
theorem content_eq_of_read {s s' : Source α ε} {room : ℕ} {data : List α}
    (h : s.read room = (.ok data, s')) :
    s.content = data ++ s'.content ∧ data.length ≤ room ∧ s'.ending = s.ending := by
  obtain ⟨_ | ⟨chunk, rest⟩, hchunks, ending⟩ := s
  · cases ending with
    | error e => cases (Prod.mk.inj h).1
    | ok u =>
        obtain ⟨hdata, rfl⟩ := Prod.mk.inj h
        cases hdata
        exact ⟨rfl, Nat.zero_le _, rfl⟩
  · simp only [read] at h
    split at h
    · obtain ⟨hdata, rfl⟩ := Prod.mk.inj h
      cases hdata
      refine ⟨?_, List.length_take_le room chunk, rfl⟩
      simp only [content, List.flatten_cons]
      rw [← List.append_assoc, List.take_append_drop]
    · obtain ⟨hdata, rfl⟩ := Prod.mk.inj h
      cases hdata
      exact ⟨rfl, by omega, rfl⟩

/-- A read into a buffer with room gives nothing at the end only. -/
theorem content_eq_nil_of_read {s s' : Source α ε} {room : ℕ} (hroom : 0 < room)
    (h : s.read room = (.ok [], s')) : s.content = [] ∧ s.ending = .ok () := by
  obtain ⟨_ | ⟨chunk, rest⟩, hchunks, ending⟩ := s
  · cases ending with
    | error e => cases (Prod.mk.inj h).1
    | ok u => exact ⟨rfl, rfl⟩
  · exfalso
    simp only [read] at h
    split at h
    · next hlt =>
      have hlength := congrArg List.length (Except.ok.inj (Prod.mk.inj h).1)
      rw [List.length_nil, List.length_take] at hlength
      omega
    · have hnil : chunk = [] := Except.ok.inj (Prod.mk.inj h).1
      exact hchunks (hnil ▸ List.mem_cons_self)

/-- A read fails where the content has ended with a failure. -/
theorem ending_eq_of_read {s s' : Source α ε} {room : ℕ} {e : ε}
    (h : s.read room = (.error e, s')) :
    s.content = [] ∧ s.ending = .error e ∧ s' = s := by
  obtain ⟨_ | ⟨chunk, rest⟩, hchunks, ending⟩ := s
  · cases ending with
    | error e =>
        obtain ⟨he, rfl⟩ := Prod.mk.inj h
        cases he
        exact ⟨rfl, rfl, rfl⟩
    | ok u => cases (Prod.mk.inj h).1
  · simp only [read] at h
    split at h
    · cases (Prod.mk.inj h).1
    · cases (Prod.mk.inj h).1

end Source

/-- A source that ends early, when a number of bytes was read. -/
structure Take (α ε : Type) where
  inner : Source α ε
  limit : ℕ

namespace Take

/-- What is left to read. -/
def content (t : Take α ε) : List α :=
  t.inner.content.take t.limit

/-- At its limit a take does not read from its source any more. -/
def read (t : Take α ε) (room : ℕ) : Except ε (List α) × Take α ε :=
  if t.limit = 0 then (.ok [], t)
  else
    match t.inner.read (min room t.limit) with
    | (.error e, s) => (.error e, ⟨s, t.limit⟩)
    | (.ok data, s) => (.ok data, ⟨s, t.limit - data.length⟩)

/-- The bytes of a read come from the source and count towards the limit. -/
theorem inner_eq_of_read {t t' : Take α ε} {room : ℕ} {data : List α}
    (h : t.read room = (.ok data, t')) :
    t.inner.content = data ++ t'.inner.content ∧ t'.limit + data.length = t.limit ∧
      t'.inner.ending = t.inner.ending := by
  unfold read at h
  split at h
  · obtain ⟨hdata, rfl⟩ := Prod.mk.inj h
    cases hdata
    exact ⟨rfl, rfl, rfl⟩
  · split at h
    · cases (Prod.mk.inj h).1
    · next data' s hread =>
      obtain ⟨hdata, rfl⟩ := Prod.mk.inj h
      cases hdata
      obtain ⟨hcontent, hlength, hending⟩ := Source.content_eq_of_read hread
      have hle := hlength.trans (Nat.min_le_right _ _)
      exact ⟨hcontent, by dsimp only; omega, hending⟩

theorem content_eq_of_read {t t' : Take α ε} {room : ℕ} {data : List α}
    (h : t.read room = (.ok data, t')) : t.content = data ++ t'.content := by
  obtain ⟨hinner, hlimit, -⟩ := inner_eq_of_read h
  rw [content, hinner, ← hlimit, Nat.add_comm, List.take_length_add_append]
  rfl

theorem content_eq_nil_of_read {t t' : Take α ε} {room : ℕ} (hroom : 0 < room)
    (h : t.read room = (.ok [], t')) : t.content = [] := by
  unfold read at h
  split at h
  · next hlimit => rw [content, hlimit, List.take_zero]
  · next hlimit =>
    split at h
    · cases (Prod.mk.inj h).1
    · next data s hread =>
      obtain ⟨hdata, -⟩ := Prod.mk.inj h
      cases hdata
      have hmin : 0 < min room t.limit := by omega
      rw [content, (Source.content_eq_nil_of_read hmin hread).1, List.take_nil]

theorem read_of_ending {t t' : Take α ε} {room : ℕ} {e : ε}
    (h : t.read room = (.error e, t')) :
    t.inner.ending = .error e ∧ t'.inner = t.inner ∧ t'.limit = t.limit := by
  unfold read at h
  split at h
  · cases (Prod.mk.inj h).1
  · split at h
    · next e' s hread =>
      obtain ⟨he, rfl⟩ := Prod.mk.inj h
      cases he
      obtain ⟨-, hending, hs⟩ := Source.ending_eq_of_read hread
      exact ⟨hending, hs, rfl⟩
    · cases (Prod.mk.inj h).1

end Take

/-! ## Reading to the end -/

/-- Read until a read gives nothing.  How much room the buffer has depends on
what is in it. -/
def readToEnd (room : ℕ → ℕ+) (buffer : List α) (t : Take α ε) :
    Except ε (List α) × Take α ε :=
  match h : t.read (room buffer.length) with
  | (.error e, t') => (.error e, t')
  | (.ok data, t') =>
      if hdata : data = [] then (.ok buffer, t')
      else
        have _ : t'.inner.content.length < t.inner.content.length := by
          rw [(Take.inner_eq_of_read h).1, List.length_append]
          have hpos := List.length_pos_iff.mpr hdata
          omega
        readToEnd room (buffer ++ data) t'
termination_by t.inner.content.length

/-- Reading to the end takes no more than the limit. -/
theorem exists_taken_of_readToEnd (room : ℕ → ℕ+) (buffer : List α) (t : Take α ε) :
    ∃ taken, t.inner.content = taken ++ (readToEnd room buffer t).2.inner.content ∧
      taken.length ≤ t.limit := by
  fun_induction readToEnd room buffer t with
  | case1 buffer t e t' h =>
      obtain ⟨-, hinner, -⟩ := Take.read_of_ending h
      exact ⟨[], by rw [hinner]; rfl, Nat.zero_le _⟩
  | case2 buffer t t' h =>
      obtain ⟨hcontent, -, -⟩ := Take.inner_eq_of_read h
      exact ⟨[], hcontent, Nat.zero_le _⟩
  | case3 buffer t data t' h hdata _ ih =>
      obtain ⟨taken, htaken, hlength⟩ := ih
      obtain ⟨hcontent, hlimit, -⟩ := Take.inner_eq_of_read h
      refine ⟨data ++ taken, ?_, ?_⟩
      · rw [hcontent, htaken, List.append_assoc]
      · rw [List.length_append]
        omega

/-- Reading a source that ends to its end gives what is left. -/
theorem readToEnd_eq (room : ℕ → ℕ+) (buffer : List α) (t : Take α ε)
    (hending : t.inner.ending = .ok ()) :
    (readToEnd room buffer t).1 = .ok (buffer ++ t.content) := by
  fun_induction readToEnd room buffer t with
  | case1 buffer t e t' h =>
      rw [(Take.read_of_ending h).1] at hending
      cases hending
  | case2 buffer t t' h =>
      rw [Take.content_eq_nil_of_read (room buffer.length).pos h, List.append_nil]
  | case3 buffer t data t' h hdata _ ih =>
      obtain ⟨-, -, hsame⟩ := Take.inner_eq_of_read h
      rw [ih (hsame.trans hending), Take.content_eq_of_read h, List.append_assoc]

/-! ## Writing -/

/-- What is written to: how many bytes each write takes. -/
structure Sink (α ε : Type) where
  written : List α
  writes : ℕ
  accepts : ℕ → Except ε ℕ

namespace Sink

/-- Every write takes something. -/
def Willing (s : Sink α ε) : Prop :=
  ∀ k, ∃ n, 0 < n ∧ s.accepts k = .ok n

def write (s : Sink α ε) (buffer : List α) : Except ε ℕ × Sink α ε :=
  match s.accepts s.writes with
  | .error e => (.error e, { s with writes := s.writes + 1 })
  | .ok n =>
      (.ok (min n buffer.length),
        { s with written := s.written ++ buffer.take n, writes := s.writes + 1 })

end Sink

/-- Write until nothing is left.  A write that takes nothing is a failure. -/
def writeAll (writeZero : ε) (buffer : List α) (s : Sink α ε) :
    Except ε Unit × Sink α ε :=
  if hbuffer : buffer = [] then (.ok (), s)
  else
    match s.write buffer with
    | (.error e, s') => (.error e, s')
    | (.ok n, s') =>
        if hn : n = 0 then (.error writeZero, s')
        else
          have _ : (buffer.drop n).length < buffer.length := by
            rw [List.length_drop]
            have hpos := List.length_pos_iff.mpr hbuffer
            omega
          writeAll writeZero (buffer.drop n) s'
termination_by buffer.length

theorem writeAll_eq (writeZero : ε) (buffer : List α) (s : Sink α ε) (hs : s.Willing) :
    (writeAll writeZero buffer s).1 = .ok () ∧
      (writeAll writeZero buffer s).2.written = s.written ++ buffer := by
  have hwrite : ∀ (s : Sink α ε) (buffer : List α), s.Willing → ∃ k, 0 < k ∧
      s.write buffer = (.ok (min k buffer.length),
        { s with written := s.written ++ buffer.take k, writes := s.writes + 1 }) := by
    intro s buffer hs
    obtain ⟨k, hk, haccepts⟩ := hs s.writes
    exact ⟨k, hk, by simp only [Sink.write, haccepts]⟩
  fun_induction writeAll writeZero buffer s with
  | case1 s => exact ⟨rfl, (List.append_nil _).symm⟩
  | case2 buffer s hbuffer e s' h =>
      obtain ⟨k, -, hok⟩ := hwrite s buffer hs
      cases h.symm.trans hok
  | case3 buffer s hbuffer s' h =>
      obtain ⟨k, hk, hok⟩ := hwrite s buffer hs
      have hzero := Except.ok.inj (Prod.mk.inj (h.symm.trans hok)).1
      have hpos := List.length_pos_iff.mpr hbuffer
      omega
  | case4 buffer s hbuffer n s' h hn _ ih =>
      obtain ⟨k, hk, hok⟩ := hwrite s buffer hs
      obtain ⟨hmin, rfl⟩ := Prod.mk.inj (h.symm.trans hok)
      cases Except.ok.inj hmin
      obtain ⟨hresult, hwritten⟩ := ih hs
      refine ⟨hresult, hwritten.trans ?_⟩
      have hparts : buffer.take k ++ buffer.drop (min k buffer.length) = buffer := by
        rw [List.take_eq_take_min, List.take_append_drop]
      rw [List.append_assoc, hparts]

/-- What was written when all of a buffer was, whatever the sink is like. -/
theorem written_of_writeAll {writeZero : ε} {buffer : List α} {s : Sink α ε}
    (h : (writeAll writeZero buffer s).1 = .ok ()) :
    (writeAll writeZero buffer s).2.written = s.written ++ buffer := by
  fun_induction writeAll writeZero buffer s with
  | case1 s => exact (List.append_nil _).symm
  | case2 buffer s hbuffer e s' hwrite => cases h
  | case3 buffer s hbuffer s' hwrite => cases h
  | case4 buffer s hbuffer n s' hwrite hn _ ih =>
      rw [ih h]
      simp only [Sink.write] at hwrite
      split at hwrite
      · cases (Prod.mk.inj hwrite).1
      · next k _ =>
        obtain ⟨hmin, rfl⟩ := Prod.mk.inj hwrite
        cases Except.ok.inj hmin
        have hparts : buffer.take k ++ buffer.drop (min k buffer.length) = buffer := by
          rw [List.take_eq_take_min, List.take_append_drop]
        rw [List.append_assoc, hparts]

end Connexa
