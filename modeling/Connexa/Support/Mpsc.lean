import Mathlib.Data.List.Basic
import Mathlib.Logic.Function.Iterate

/-!
# Bounded channels

A bounded channel with one sender holds as many messages as its buffer and one more: the
message that exceeds the buffer is accepted and parks the sender.  What was sent before
the channel was closed can still be read.  The receiver is read by somebody who keeps
what came, or drops it.
-/

namespace Connexa.Mpsc

variable {α : Type}

/-- The messages that were sent and not yet read; `isOpen` until the sender closes the
channel or is dropped, or the receiver is dropped. -/
structure Channel (α : Type) where
  buffer : ℕ
  waiting : List α
  isOpen : Bool

/-- `mpsc::channel(buffer)`. -/
def channel (buffer : ℕ) : Channel α :=
  ⟨buffer, [], true⟩

namespace Channel

/-- The sender is not parked. -/
def hasRoom (ch : Channel α) : Bool :=
  decide (ch.waiting.length ≤ ch.buffer)

/-- `try_send`, and whether the message was accepted. -/
def trySend (message : α) (ch : Channel α) : Bool × Channel α :=
  if ch.isOpen && ch.hasRoom then (true, { ch with waiting := ch.waiting ++ [message] })
  else (false, ch)

/-- `close_channel`, and what dropping the one sender does. -/
def close (ch : Channel α) : Channel α :=
  { ch with isOpen := false }

theorem trySend_of_room {ch : Channel α} (message : α) (hopen : ch.isOpen = true)
    (hroom : ch.waiting.length ≤ ch.buffer) :
    ch.trySend message = (true, { ch with waiting := ch.waiting ++ [message] }) := by
  have hroom' : ch.hasRoom = true := decide_eq_true hroom
  rw [trySend, hopen, hroom']
  rfl

theorem trySend_of_full {ch : Channel α} (message : α)
    (hfull : ch.buffer < ch.waiting.length) : ch.trySend message = (false, ch) := by
  have hroom : ch.hasRoom = false := decide_eq_false (Nat.not_le.mpr hfull)
  rw [trySend, hroom, Bool.and_false]
  rfl

theorem trySend_of_closed {ch : Channel α} (message : α) (hopen : ch.isOpen = false) :
    ch.trySend message = (false, ch) := by
  rw [trySend, hopen]
  rfl

/-- `try_send` adds the message to an open channel, or changes nothing. -/
theorem trySend_cases (message : α) (ch : Channel α) :
    (ch.trySend message).2 = ch ∨
      ch.isOpen = true ∧
        (ch.trySend message).2 = { ch with waiting := ch.waiting ++ [message] } := by
  unfold trySend
  split
  · next h => exact Or.inr ⟨(Bool.and_eq_true_iff.mp h).1, rfl⟩
  · exact Or.inl rfl

theorem buffer_trySend (message : α) (ch : Channel α) :
    (ch.trySend message).2.buffer = ch.buffer := by
  rcases ch.trySend_cases message with h | ⟨-, h⟩ <;> rw [h]

theorem isOpen_trySend (message : α) (ch : Channel α) :
    (ch.trySend message).2.isOpen = ch.isOpen := by
  rcases ch.trySend_cases message with h | ⟨-, h⟩ <;> rw [h]

theorem mem_waiting_trySend {message m : α} {ch : Channel α}
    (hm : m ∈ (ch.trySend message).2.waiting) : m ∈ ch.waiting ∨ m = message := by
  rcases ch.trySend_cases message with h | ⟨-, h⟩
  · rw [h] at hm
    exact Or.inl hm
  · rw [h] at hm
    exact (List.mem_append.mp hm).imp_right List.mem_singleton.mp

end Channel

/-- The receiver of a channel, and what its owner made of it. -/
structure Reader (α : Type) where
  channel : Channel α
  /-- The messages that were read, in order. -/
  yielded : List α
  /-- The stream ended. -/
  ended : Bool
  dropped : Bool

namespace Reader

/-- The receiver of a new channel. -/
def new (buffer : ℕ) : Reader α :=
  ⟨Mpsc.channel buffer, [], false, false⟩

/-- The owner polls the stream. -/
def read (r : Reader α) : Reader α :=
  if r.dropped then r
  else
    match r.channel.waiting with
    | message :: rest =>
        { r with
          channel := { r.channel with waiting := rest }
          yielded := r.yielded ++ [message] }
    | [] => if r.channel.isOpen then r else { r with ended := true }

/-- The owner drops the receiver. -/
def drop (r : Reader α) : Reader α :=
  { r with
    channel := { r.channel with waiting := [], isOpen := false }
    dropped := true }

/-- A change on the side of the sender. -/
def atSender (f : Channel α → Channel α) (r : Reader α) : Reader α :=
  { r with channel := f r.channel }

/-- What the owner has read and can still read. -/
def messages (r : Reader α) : List α :=
  r.yielded ++ r.channel.waiting

/-! ## Reading -/

/-- One poll: a message is taken, the stream ends, or nothing happens. -/
theorem read_cases (r : Reader α) :
    r.read = r ∨
      (r.dropped = false ∧ ∃ message rest, r.channel.waiting = message :: rest ∧
        r.read = { r with
          channel := { r.channel with waiting := rest }
          yielded := r.yielded ++ [message] }) ∨
      r.dropped = false ∧ r.channel.waiting = [] ∧ r.channel.isOpen = false ∧
        r.read = { r with ended := true } := by
  unfold read
  split
  · exact Or.inl rfl
  · next hdropped =>
    have hdropped := eq_false_of_ne_true hdropped
    split
    · next message rest hwaiting =>
      exact Or.inr (Or.inl ⟨hdropped, message, rest, hwaiting, rfl⟩)
    · next hwaiting =>
      split
      · exact Or.inl rfl
      · next hopen =>
        exact Or.inr (Or.inr ⟨hdropped, hwaiting, eq_false_of_ne_true hopen, rfl⟩)

theorem messages_read (r : Reader α) : r.read.messages = r.messages := by
  rcases r.read_cases with h | ⟨-, message, rest, hwaiting, h⟩ | ⟨-, -, -, h⟩
  · rw [h]
  · rw [h, messages, messages, hwaiting]
    exact (List.append_cons _ _ _).symm
  · rw [h]
    rfl

theorem isOpen_read (r : Reader α) : r.read.channel.isOpen = r.channel.isOpen := by
  rcases r.read_cases with h | ⟨-, _, _, -, h⟩ | ⟨-, -, -, h⟩ <;> rw [h]

theorem dropped_read (r : Reader α) : r.read.dropped = r.dropped := by
  rcases r.read_cases with h | ⟨-, _, _, -, h⟩ | ⟨-, -, -, h⟩ <;> rw [h]

theorem buffer_read (r : Reader α) : r.read.channel.buffer = r.channel.buffer := by
  rcases r.read_cases with h | ⟨-, _, _, -, h⟩ | ⟨-, -, -, h⟩ <;> rw [h]

/-- Where the stream ended, everything has been read. -/
def Settled (r : Reader α) : Prop :=
  r.ended = true → r.channel.waiting = [] ∧ r.channel.isOpen = false

theorem Settled.read {r : Reader α} (h : r.Settled) : r.read.Settled := by
  rcases r.read_cases with heq | ⟨-, message, rest, hwaiting, heq⟩ |
    ⟨-, hwaiting, hopen, heq⟩
  · rw [heq]
    exact h
  · rw [heq]
    intro hended
    rw [(h hended).1] at hwaiting
    cases hwaiting
  · rw [heq]
    exact fun _ => ⟨hwaiting, hopen⟩

/-- Sending after the end of the stream changes nothing. -/
theorem Settled.trySend {r : Reader α} (h : r.Settled) (message : α) :
    (r.atSender fun ch => (ch.trySend message).2).Settled := by
  intro hended
  obtain ⟨hwaiting, hopen⟩ := h hended
  rw [atSender, Channel.trySend_of_closed message hopen]
  exact ⟨hwaiting, hopen⟩

theorem Settled.close {r : Reader α} (h : r.Settled) :
    (r.atSender Channel.close).Settled := by
  intro hended
  exact ⟨(h hended).1, rfl⟩

/-- Once the channel is closed, reading on yields all the messages and then the end. -/
theorem read_toEnd {n : ℕ} {r : Reader α} (hdropped : r.dropped = false)
    (hopen : r.channel.isOpen = false) (hn : r.channel.waiting.length < n) :
    (read^[n] r).ended = true ∧ (read^[n] r).yielded = r.messages := by
  induction n generalizing r with
  | zero => exact absurd hn (Nat.not_lt_zero _)
  | succ n ih =>
      rw [Function.iterate_succ_apply, ← r.messages_read]
      have hdropped' := r.dropped_read.trans hdropped
      have hopen' := r.isOpen_read.trans hopen
      cases hwaiting : r.channel.waiting with
      | cons message rest =>
          refine ih hdropped' hopen' ?_
          have hrest : r.read.channel.waiting = rest := by
            rw [read, hdropped, hwaiting]
            rfl
          rw [hrest]
          rw [hwaiting, List.length_cons] at hn
          exact Nat.lt_of_succ_lt_succ hn
      | nil =>
          -- the stream has ended, and further polls change nothing
          have hend : r.read = { r with ended := true } := by
            rw [read, hdropped, hwaiting, hopen]
            rfl
          have hstill : Reader.read { r with ended := true } =
            { r with ended := true } := by
            rw [read, hdropped, hwaiting, hopen]
            rfl
          rw [hend, Function.iterate_fixed hstill, messages, hwaiting, List.append_nil]
          exact ⟨rfl, rfl⟩

end Reader

end Connexa.Mpsc
