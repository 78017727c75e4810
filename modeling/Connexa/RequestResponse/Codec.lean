import Connexa.Support.Streams
import Connexa.RequestResponse.Behaviour

/-!
# The request-response codec

`behaviour/request_response/codec.rs`.  A reader asks its stream for one byte more
than the limit, to tell a message at the limit from a longer one.  That one byte
more is where the largest limit goes wrong: `max as u64 + 1` does not fit any more
at `usize::MAX`, where it panics in a build with overflow checks and is zero in one
without.
-/

namespace Connexa.RequestResponse

/-- The kinds of `std::io::ErrorKind` that matter here. -/
inductive ErrorKind where
  | unexpectedEof
  | invalidData
  | invalidInput
  | writeZero
  | other
  deriving DecidableEq

/-- `std::io::Error` -/
inductive IoError where
  /-- `io::Error::new(kind, text)` -/
  | new (kind : ErrorKind) (text : String)
  /-- Reported by the stream. -/
  | stream (kind : ErrorKind)
  deriving DecidableEq

def IoError.kind : IoError → ErrorKind
  | .new kind _ => kind
  | .stream kind => kind

/-- How a call ends. -/
inductive Ending (α : Type) where
  | returned (result : Except IoError α)
  | panicked

abbrev ReadHalf := Source UInt8 IoError

abbrev WriteHalf := Sink UInt8 IoError

/-- The limits are of type `usize`, which has 64 bits. -/
structure Codec where
  maxRequestSize : UInt64
  maxResponseSize : UInt64

/-- `max as u64 + 1`, in a build with overflow checks or without. -/
def readLimit (overflowChecks : Bool) (max : UInt64) : Option UInt64 :=
  if overflowChecks ∧ max.toNat + 1 = 2 ^ 64 then none else some (max + 1)

/-- The reader of both directions. -/
def readMessage (overflowChecks : Bool) (room : ℕ → ℕ+) (max : UInt64)
    (empty tooLong : String) (io : ReadHalf) : Ending Bytes × ReadHalf :=
  match readLimit overflowChecks max with
  | none => (.panicked, io)
  | some limit =>
      match readToEnd room [] ⟨io, limit.toNat⟩ with
      | (.error e, rest) => (.returned (.error e), rest.inner)
      | (.ok buffer, rest) =>
          if buffer.isEmpty then
            (.returned (.error (.new .unexpectedEof empty)), rest.inner)
          else if max.toNat < buffer.length then
            (.returned (.error (.new .invalidData tooLong)), rest.inner)
          else (.returned (.ok buffer), rest.inner)

/-- The writer of both directions. -/
def writeMessage (max : UInt64) (empty tooLong : String) (io : WriteHalf)
    (message : Bytes) :
    Except IoError Unit × WriteHalf :=
  if message.isEmpty then (.error (.new .invalidInput empty), io)
  else if max.toNat < message.length then (.error (.new .invalidInput tooLong), io)
  else writeAll (.stream .writeZero) message io

namespace Codec

def readRequest (overflowChecks : Bool) (room : ℕ → ℕ+) (codec : Codec) (io : ReadHalf) :
    Ending Bytes × ReadHalf :=
  readMessage overflowChecks room codec.maxRequestSize "request is empty"
    "request exceeds max size" io

def readResponse (overflowChecks : Bool) (room : ℕ → ℕ+) (codec : Codec) (io : ReadHalf) :
    Ending Bytes × ReadHalf :=
  readMessage overflowChecks room codec.maxResponseSize "response is empty"
    "response exceeds max size" io

def writeRequest (codec : Codec) (io : WriteHalf) (req : Bytes) :
    Except IoError Unit × WriteHalf :=
  writeMessage codec.maxRequestSize "request is empty" "request exceeds max size" io req

def writeResponse (codec : Codec) (io : WriteHalf) (res : Bytes) :
    Except IoError Unit × WriteHalf :=
  writeMessage codec.maxResponseSize "response is empty"
    "response exceeds max size" io res

end Codec

/-- The call failed with an error of the kind. -/
def Fails {α : Type} (kind : ErrorKind) (result : Except IoError α) : Prop :=
  ∃ e, result = .error e ∧ e.kind = kind

/-- What is asked of reader and writer of one direction, for a limit. -/
structure Conforms (overflowChecks : Bool) (max : UInt64)
    (read : ReadHalf → Ending Bytes × ReadHalf)
    (write : WriteHalf → Bytes → Except IoError Unit × WriteHalf) : Prop where
  /-- The writer writes what fits. -/
  writes : ∀ b io, io.Willing → 0 < b.length → b.length ≤ max.toNat →
    (write io b).1 = .ok () ∧ (write io b).2.written = io.written ++ b
  refuses : ∀ b io, ¬(0 < b.length ∧ b.length ≤ max.toNat) →
    Fails .invalidInput (write io b).1 ∧ (write io b).2.written = io.written
  /-- The reader gives back what was on the stream. -/
  reads : ∀ io : ReadHalf, io.ending = .ok () → 0 < io.content.length →
    io.content.length ≤ max.toNat → (read io).1 = .returned (.ok io.content)
  readsNothing : ∀ io : ReadHalf, io.ending = .ok () → io.content = [] →
    ∃ r, (read io).1 = .returned r ∧ Fails .unexpectedEof r
  readsTooMuch : ∀ io : ReadHalf, io.ending = .ok () → max.toNat < io.content.length →
    ∃ r, (read io).1 = .returned r ∧ Fails .invalidData r
  /-- The reader takes one byte more than the limit at most. -/
  consumes : ∀ io, ∃ taken, io.content = taken ++ (read io).2.content ∧
    taken.length ≤ max.toNat + 1
  returns : ∀ io, ∃ r, (read io).1 = .returned r
  exactLimit : ∃ limit, readLimit overflowChecks max = some limit ∧
    limit.toNat = max.toNat + 1
  /-- What one side writes, the other reads. -/
  roundTrip : ∀ b output io, output.Willing → output.written = [] →
    (write output b).1 = .ok () → io.ending = .ok () →
    io.content = (write output b).2.written → (read io).1 = .returned (.ok b)

section Messages

variable {overflowChecks : Bool} {room : ℕ → ℕ+} {max : UInt64} {empty tooLong : String}

theorem readLimit_of_ne (overflowChecks : Bool) (h : max.toNat ≠ 2 ^ 64 - 1) :
    ∃ limit, readLimit overflowChecks max = some limit ∧ limit.toNat = max.toNat + 1 := by
  have hlt := max.toNat_lt
  have hsum : (max + 1).toNat = max.toNat + 1 := by
    rw [UInt64.toNat_add, UInt64.toNat_one]
    omega
  have hfits : ¬(overflowChecks = true ∧ max.toNat + 1 = 2 ^ 64) := fun h' => by omega
  exact ⟨max + 1, if_neg hfits, hsum⟩

/-- The reader, on a stream that ends. -/
theorem readMessage_eq (h : max.toNat ≠ 2 ^ 64 - 1) {io : ReadHalf}
    (hending : io.ending = .ok ()) :
    (readMessage overflowChecks room max empty tooLong io).1 = .returned (
      if io.content.isEmpty then .error (.new .unexpectedEof empty)
      else if max.toNat < io.content.length then .error (.new .invalidData tooLong)
      else .ok io.content) := by
  obtain ⟨limit, hlimit, hexact⟩ := readLimit_of_ne overflowChecks h
  have hread := readToEnd_eq room [] ⟨io, limit.toNat⟩ hending
  rw [List.nil_append, Take.content, hexact] at hread
  simp only [readMessage, hlimit]
  rw [hexact]
  generalize readToEnd room [] ⟨io, max.toNat + 1⟩ = result at hread ⊢
  obtain ⟨r, rest⟩ := result
  obtain rfl : r = .ok (io.content.take (max.toNat + 1)) := hread
  -- one byte more than the limit tells which of the three it is
  by_cases hnil : io.content = []
  · simp [hnil]
  · by_cases hlong : max.toNat < io.content.length
    · simp [hnil, hlong]
    · rw [List.take_of_length_le (by omega)]
      simp [hnil, hlong]

theorem exists_taken_of_readMessage (h : max.toNat ≠ 2 ^ 64 - 1) (io : ReadHalf) :
    (∃ r, (readMessage overflowChecks room max empty tooLong io).1 = .returned r) ∧
    ∃ taken, io.content =
        taken ++ (readMessage overflowChecks room max empty tooLong io).2.content ∧
      taken.length ≤ max.toNat + 1 := by
  obtain ⟨limit, hlimit, hexact⟩ := readLimit_of_ne overflowChecks h
  have htaken := exists_taken_of_readToEnd room [] ⟨io, limit.toNat⟩
  simp only [readMessage, hlimit]
  rw [hexact] at htaken ⊢
  generalize readToEnd room [] ⟨io, max.toNat + 1⟩ = result at htaken ⊢
  obtain ⟨e | buffer, rest⟩ := result
  · exact ⟨⟨_, rfl⟩, htaken⟩
  · dsimp only
    split
    · exact ⟨⟨_, rfl⟩, htaken⟩
    · split
      · exact ⟨⟨_, rfl⟩, htaken⟩
      · exact ⟨⟨_, rfl⟩, htaken⟩

/-- At the largest limit no message can be read. -/
theorem readMessage_of_max (h : max.toNat = 2 ^ 64 - 1) (io : ReadHalf) :
    (readMessage overflowChecks room max empty tooLong io).1 =
      if overflowChecks then .panicked
      else .returned (.error (.new .unexpectedEof empty)) := by
  have hone : max + 1 = 0 := by
    apply UInt64.toNat_inj.mp
    rw [UInt64.toNat_add, UInt64.toNat_one, h]
    rfl
  cases overflowChecks with
  | true => simp [readMessage, readLimit, h]
  | false =>
      have hread : readToEnd room [] (⟨io, 0⟩ : Take UInt8 IoError) =
        (.ok [], ⟨io, 0⟩) := by
        rw [readToEnd]
        rfl
      simp [readMessage, readLimit, hone, hread]

theorem writeMessage_of_fits {io : WriteHalf} {message : Bytes} (hio : io.Willing)
    (hpos : 0 < message.length) (hle : message.length ≤ max.toNat) :
    (writeMessage max empty tooLong io message).1 = .ok () ∧
      (writeMessage max empty tooLong io message).2.written = io.written ++ message := by
  have hnil : message.isEmpty = false := by
    rw [List.isEmpty_eq_false_iff]
    exact List.length_pos_iff.mp hpos
  have hwrite : writeMessage max empty tooLong io message =
      writeAll (.stream .writeZero) message io := by
    rw [writeMessage, hnil, if_neg nofun, if_neg (by omega)]
  rw [hwrite]
  exact writeAll_eq _ message io hio

theorem writeMessage_of_not_fits (io : WriteHalf) {message : Bytes}
    (h : ¬(0 < message.length ∧ message.length ≤ max.toNat)) :
    Fails .invalidInput (writeMessage max empty tooLong io message).1 ∧
      (writeMessage max empty tooLong io message).2 = io := by
  unfold writeMessage
  split
  · exact ⟨⟨_, rfl, rfl⟩, rfl⟩
  · next hnil =>
    rw [List.isEmpty_iff, ← ne_eq, ← List.length_pos_iff] at hnil
    rw [if_pos (by omega)]
    exact ⟨⟨_, rfl, rfl⟩, rfl⟩

theorem conforms_of_ne (h : max.toNat ≠ 2 ^ 64 - 1) :
    Conforms overflowChecks max (readMessage overflowChecks room max empty tooLong)
      (writeMessage max empty tooLong) where
  writes b io := writeMessage_of_fits
  refuses b io hb := by
    obtain ⟨hfails, hio⟩ := writeMessage_of_not_fits io hb
    exact ⟨hfails, by rw [hio]⟩
  reads io hending hpos hle := by
    rw [readMessage_eq h hending, if_neg, if_neg (by omega)]
    rw [List.isEmpty_iff]
    exact List.length_pos_iff.mp hpos
  readsNothing io hending hnil := by
    rw [readMessage_eq h hending, hnil]
    exact ⟨_, rfl, _, rfl, rfl⟩
  readsTooMuch io hending hlong := by
    have hpos : 0 < io.content.length := by omega
    rw [readMessage_eq h hending, if_neg, if_pos hlong]
    · exact ⟨_, rfl, _, rfl, rfl⟩
    · rw [List.isEmpty_iff]
      exact List.length_pos_iff.mp hpos
  consumes io := (exists_taken_of_readMessage h io).2
  returns io := (exists_taken_of_readMessage h io).1
  exactLimit := readLimit_of_ne overflowChecks h
  roundTrip b output io houtput hempty hwrite hending hcontent := by
    by_cases hfits : 0 < b.length ∧ b.length ≤ max.toNat
    · rw [(writeMessage_of_fits houtput hfits.1 hfits.2).2, hempty, List.nil_append]
        at hcontent
      rw [readMessage_eq h hending, hcontent, if_neg, if_neg (by omega)]
      rw [List.isEmpty_iff]
      exact List.length_pos_iff.mp hfits.1
    · obtain ⟨⟨e, he, -⟩, -⟩ := writeMessage_of_not_fits output hfits
      cases he.symm.trans hwrite

/-- A stream with one byte on it. -/
def oneByte : ReadHalf :=
  ⟨[[7]], by simp, .ok ()⟩

theorem conforms_iff :
    Conforms overflowChecks max (readMessage overflowChecks room max empty tooLong)
      (writeMessage max empty tooLong) ↔ max.toNat ≠ 2 ^ 64 - 1 := by
  refine ⟨fun hconforms h => ?_, conforms_of_ne⟩
  have hread := hconforms.reads oneByte rfl (by decide) (by rw [h]; decide)
  rw [readMessage_of_max h] at hread
  cases overflowChecks with
  | true => cases hread
  | false => cases hread

end Messages

/-- Both directions keep to their limit and undo each other exactly if the limit
is not the largest number there is, in builds with overflow checks and in builds
without. -/
theorem codec_conforms_iff (overflowChecks : Bool) (room : ℕ → ℕ+) (codec : Codec) :
    (Conforms overflowChecks codec.maxRequestSize
      (codec.readRequest overflowChecks room) codec.writeRequest ↔
        codec.maxRequestSize.toNat ≠ 2 ^ 64 - 1) ∧
    (Conforms overflowChecks codec.maxResponseSize
      (codec.readResponse overflowChecks room) codec.writeResponse ↔
        codec.maxResponseSize.toNat ≠ 2 ^ 64 - 1) :=
  ⟨conforms_iff, conforms_iff⟩

/-- With the largest limit a message of one byte is written and cannot be read. -/
theorem codec_fails_at_usize_max :
    let codec : Codec := ⟨18446744073709551615, 18446744073709551615⟩
    let output : WriteHalf := ⟨[], 0, fun _ => .ok 1⟩
    (codec.writeRequest output [7]).1 = .ok () ∧
    (codec.writeRequest output [7]).2.written = oneByte.content ∧
    (codec.readRequest true (fun _ => 32) oneByte).1 = .panicked ∧
    (codec.readRequest false (fun _ => 32) oneByte).1 =
      .returned (.error (.new .unexpectedEof "request is empty")) ∧
    (codec.readResponse true (fun _ => 32) oneByte).1 = .panicked ∧
    (codec.readResponse false (fun _ => 32) oneByte).1 =
      .returned (.error (.new .unexpectedEof "response is empty")) := by
  intro codec output
  have hmax : codec.maxRequestSize.toNat = 2 ^ 64 - 1 := by decide
  have houtput : output.Willing := fun _ => ⟨1, by decide, rfl⟩
  have hfits : ([7] : Bytes).length ≤ codec.maxRequestSize.toNat := by
    rw [hmax]
    decide
  obtain ⟨hwrite, hwritten⟩ := writeMessage_of_fits houtput (by decide) hfits
  exact ⟨hwrite, hwritten, readMessage_of_max hmax _, readMessage_of_max hmax _,
    readMessage_of_max hmax _, readMessage_of_max hmax _⟩

end Connexa.RequestResponse
