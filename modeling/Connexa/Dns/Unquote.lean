import Mathlib.Data.List.Basic
import Connexa.Dns.Transport

/-!
# Quoted TXT records

`unquote_txt` of `builder/dns_websys/resolver.rs` reads the presentation form of a TXT
record: quoted segments with escapes.  A decimal escape stands for a byte, but the code
makes a character of it, so only records of ASCII bytes are read back.
-/

namespace Connexa.Dns

/-! ## Reading a record -/

/-- `char::from_u32`. -/
def charFromU32 (code : ℕ) : Option Char :=
  if code.isValidChar then some (Char.ofNat code) else none

/-- `char::to_digit(10)` of a digit. -/
def toDigit (c : Char) : ℕ :=
  c.toNat - '0'.toNat

/-- Up to `n` further digits of an escape, with the characters behind them. -/
def takeDigits : ℕ → ℕ → List Char → ℕ × List Char
  | 0, code, chars => (code, chars)
  | _, code, [] => (code, [])
  | n + 1, code, p :: chars =>
      if p.isDigit then takeDigits n (code * 10 + toDigit p) chars
      else (code, p :: chars)

theorem length_takeDigits_le (n code : ℕ) (chars : List Char) :
    (takeDigits n code chars).2.length ≤ chars.length := by
  fun_induction takeDigits n code chars with
  | case1 => exact le_rfl
  | case2 => exact le_rfl
  | case3 n code p chars hdigit ih => exact ih.trans (Nat.le_succ _)
  | case4 => exact le_rfl

/-- The two loops: the inner one reads a quoted segment, the outer one looks for the
next. -/
def unquoteLoop (quoted : Bool) (out chars : List Char) : List Char :=
  match quoted, chars with
  | _, [] => out
  | false, c :: chars => unquoteLoop (c == '"') out chars
  | true, '"' :: chars => unquoteLoop false out chars
  | true, ['\\'] => out
  | true, '\\' :: d :: chars =>
      if d.isDigit then
        let read := takeDigits 2 (toDigit d) chars
        unquoteLoop true (out ++ (charFromU32 read.1).toList) read.2
      else unquoteLoop true (out ++ [d]) chars
  | true, c :: chars => unquoteLoop true (out ++ [c]) chars
termination_by chars.length
decreasing_by
  all_goals simp only [List.length_cons]
  all_goals try have hle := length_takeDigits_le 2 (toDigit d) chars
  all_goals omega

def unquoteTxt (s : String) : String :=
  if '"' ∉ s.toList then s
  else String.ofList (unquoteLoop false [] s.toList)

/-! ## The presentation form -/

/-- The character with the number of the byte. -/
def latin1 (b : UInt8) : Char :=
  Char.ofNat b.toNat

/-- A byte in a quoted segment: the quote and the backslash with a backslash, bytes that
are not printable as three digits. -/
def present (b : UInt8) : List Char :=
  if b = 34 ∨ b = 92 then ['\\', latin1 b]
  else if 32 ≤ b ∧ b ≤ 126 then [latin1 b]
  else
    ['\\', Nat.digitChar (b.toNat / 100), Nat.digitChar (b.toNat / 10 % 10),
      Nat.digitChar (b.toNat % 10)]

def quote (segment : List UInt8) : List Char :=
  '"' :: (segment.flatMap present ++ ['"'])

/-- The quoted segments one after the other, with or without spaces between them. -/
inductive Presents : List (List UInt8) → List Char → Prop where
  | last (segment : List UInt8) : Presents [segment] (quote segment)
  | more (segment : List UInt8) (spaces : ℕ) {rest : List (List UInt8)} {text : List Char}
      (h : Presents rest text) :
      Presents (segment :: rest)
        (quote segment ++ (List.replicate spaces ' ' ++ text))

/-! ## Reading the presentation form -/

theorem isValidChar_byte (b : UInt8) : b.toNat.isValidChar :=
  Or.inl (lt_trans b.toNat_lt (by decide))

theorem toNat_latin1 (b : UInt8) : (latin1 b).toNat = b.toNat := by
  rw [latin1, Char.ofNat, dif_pos (isValidChar_byte b)]
  rfl

theorem latin1_eq_iff {b : UInt8} {c : Char} : latin1 b = c ↔ b.toNat = c.toNat := by
  rw [← toNat_latin1, Char.toNat_inj]

theorem charFromU32_byte (b : UInt8) : charFromU32 b.toNat = some (latin1 b) :=
  if_pos (isValidChar_byte b)

theorem digitChar_spec : ∀ k < 10,
    (Nat.digitChar k).isDigit = true ∧ toDigit (Nat.digitChar k) = k := by
  decide

theorem takeDigits_two {j k : ℕ} (hj : j < 10) (hk : k < 10) (code : ℕ)
    (rest : List Char) :
    takeDigits 2 code (Nat.digitChar j :: Nat.digitChar k :: rest) =
      ((code * 10 + j) * 10 + k, rest) := by
  obtain ⟨hdigit, hvalue⟩ := digitChar_spec j hj
  obtain ⟨hdigit', hvalue'⟩ := digitChar_spec k hk
  simp only [takeDigits, hdigit, hdigit', hvalue, hvalue', if_true]

theorem unquoteLoop_space (out rest : List Char) :
    unquoteLoop false out (' ' :: rest) = unquoteLoop false out rest := by
  rw [unquoteLoop]
  rfl

theorem unquoteLoop_open (out rest : List Char) :
    unquoteLoop false out ('"' :: rest) = unquoteLoop true out rest := by
  rw [unquoteLoop]
  rfl

theorem unquoteLoop_close (out rest : List Char) :
    unquoteLoop true out ('"' :: rest) = unquoteLoop false out rest := by
  rw [unquoteLoop]

theorem unquoteLoop_present (b : UInt8) (out rest : List Char) :
    unquoteLoop true out (present b ++ rest) = unquoteLoop true
      (out ++ [latin1 b]) rest := by
  unfold present
  split
  · next hescaped =>
    have hdigit : (latin1 b).isDigit = false := by
      rcases hescaped with rfl | rfl <;> decide
    rw [List.cons_append, List.singleton_append, unquoteLoop, hdigit]
    rfl
  · next hplain =>
    push Not at hplain
    split
    · have hquote : latin1 b ≠ '"' := fun heq =>
        hplain.1 (UInt8.toNat_inj.mp (latin1_eq_iff.mp heq))
      have hbackslash : latin1 b ≠ '\\' := fun heq =>
        hplain.2 (UInt8.toNat_inj.mp (latin1_eq_iff.mp heq))
      rw [List.singleton_append, unquoteLoop]
      · exact hquote
      · exact fun h _ => hbackslash h
      · exact fun _ _ h _ => hbackslash h
    · have hlt := b.toNat_lt
      obtain ⟨hdigit, hvalue⟩ := digitChar_spec (b.toNat / 100) (by omega)
      have hcode :
          (b.toNat / 100 * 10 + b.toNat / 10 % 10) * 10 + b.toNat % 10 = b.toNat := by
        omega
      simp only [List.cons_append, List.nil_append]
      rw [unquoteLoop, hdigit, if_pos rfl, hvalue,
        takeDigits_two (Nat.mod_lt _ (by decide)) (Nat.mod_lt _ (by decide)), hcode]
      simp only [charFromU32_byte, Option.toList_some]

theorem unquoteLoop_flatMap (segment : List UInt8) (out rest : List Char) :
    unquoteLoop true out (segment.flatMap present ++ rest) =
      unquoteLoop true (out ++ segment.map latin1) rest := by
  induction segment generalizing out with
  | nil => rw [List.flatMap_nil, List.nil_append, List.map_nil, List.append_nil]
  | cons b segment ih =>
    rw [List.flatMap_cons, List.append_assoc, unquoteLoop_present, ih, List.map_cons,
      List.append_assoc, List.singleton_append]

theorem unquoteLoop_quote (segment : List UInt8) (out rest : List Char) :
    unquoteLoop false out (quote segment ++ rest) =
      unquoteLoop false (out ++ segment.map latin1) rest := by
  rw [quote, List.cons_append, unquoteLoop_open, List.append_assoc, unquoteLoop_flatMap,
    List.singleton_append, unquoteLoop_close]

theorem unquoteLoop_spaces (spaces : ℕ) (out rest : List Char) :
    unquoteLoop false out (List.replicate spaces ' ' ++ rest) =
      unquoteLoop false out rest := by
  induction spaces with
  | zero => rfl
  | succ spaces ih => rw [List.replicate_succ, List.cons_append, unquoteLoop_space, ih]

theorem unquoteLoop_presents {segments : List (List UInt8)} {text : List Char}
    (h : Presents segments text) (out : List Char) :
    unquoteLoop false out text = out ++ segments.flatten.map latin1 := by
  induction h generalizing out with
  | last segment =>
    rw [← List.append_nil (quote segment), unquoteLoop_quote, unquoteLoop,
      List.flatten_singleton]
  | more segment spaces h ih =>
    rw [unquoteLoop_quote, unquoteLoop_spaces, ih, List.flatten_cons, List.map_append,
      List.append_assoc]

theorem Presents.quote_mem {segments : List (List UInt8)} {text : List Char}
    (h : Presents segments text) : '"' ∈ text := by
  cases h with
  | last segment => exact List.mem_cons_self
  | more segment spaces h => exact List.mem_cons_self

/-- A byte of the record comes back as the character with its number. -/
theorem unquoteTxt_presents {segments : List (List UInt8)} {text : String}
    (h : Presents segments text.toList) :
    unquoteTxt text = String.ofList (segments.flatten.map latin1) := by
  rw [unquoteTxt, if_neg (not_not_intro h.quote_mem), unquoteLoop_presents h,
    List.nil_append]

/-! ## Which records are read back -/

theorem flatMap_eq_self_iff {α : Type*} {f : α → List α} (hf : ∀ a, f a ≠ [])
    (l : List α) : l.flatMap f = l ↔ ∀ a ∈ l, f a = [a] := by
  have hle : ∀ l : List α, l.length ≤ (l.flatMap f).length := by
    intro l
    induction l with
    | nil => exact le_rfl
    | cons a l ih =>
      rw [List.flatMap_cons, List.length_append, List.length_cons, Nat.add_comm]
      exact Nat.add_le_add (List.length_pos_of_ne_nil (hf a)) ih
  induction l with
  | nil => simp
  | cons a l ih =>
    rw [List.flatMap_cons, List.forall_mem_cons]
    constructor
    · intro heq
      have hlength := congrArg List.length heq
      rw [List.length_append, List.length_cons] at hlength
      have hpos := List.length_pos_of_ne_nil (hf a)
      have hone : (f a).length = [a].length := by
        have := hle l
        rw [List.length_singleton]
        omega
      obtain ⟨hhead, htail⟩ := List.append_inj (heq.trans List.singleton_append.symm) hone
      exact ⟨hhead, ih.mp htail⟩
    · rintro ⟨hhead, htail⟩
      rw [hhead, ih.mpr htail, List.singleton_append]

/-- The character of a byte is encoded as that byte when it is ASCII. -/
theorem utf8EncodeChar_latin1 (b : UInt8) :
    String.utf8EncodeChar (latin1 b) = [b] ↔ b < 128 := by
  have hval : (latin1 b).val.toNat = b.toNat := toNat_latin1 b
  rw [UInt8.lt_iff_toNat_lt]
  constructor
  · intro heq
    have hsize := congrArg List.length heq
    rw [String.length_utf8EncodeChar, List.length_singleton, Char.utf8Size_eq_one_iff,
      UInt32.le_iff_toNat_le, hval] at hsize
    exact Nat.lt_succ_of_le hsize
  · intro hlt
    have hsize : (latin1 b).utf8Size = 1 := by
      rw [Char.utf8Size_eq_one_iff, UInt32.le_iff_toNat_le, hval]
      exact Nat.le_of_lt_succ hlt
    rw [String.utf8EncodeChar_eq_singleton hsize, List.singleton_inj, ← UInt8.toNat_inj,
      UInt32.toNat_toUInt8, hval, Nat.mod_eq_of_lt b.toNat_lt]

theorem utf8Encode_latin1 (bytes : List UInt8) :
    (String.ofList (bytes.map latin1)).toUTF8.data.toList =
      bytes.flatMap fun b => String.utf8EncodeChar (latin1 b) := by
  rw [String.toUTF8_eq_toByteArray, String.toByteArray_ofList, List.utf8Encode,
    List.toList_data_toByteArray, List.flatMap_map]

theorem toUTF8_inj {s t : String} :
    s = t ↔ s.toUTF8.data.toList = t.toUTF8.data.toList := by
  rw [Array.toList_inj, ← ByteArray.ext_iff, String.toUTF8_eq_toByteArray,
    String.toUTF8_eq_toByteArray, String.toByteArray_inj]

theorem unquoteTxt_eq_record_iff {segments : List (List UInt8)} {text record : String}
    (h : Presents segments text.toList)
    (hrecord : record.toUTF8.data.toList = segments.flatten) :
    unquoteTxt text = record ↔ ∀ b ∈ segments.flatten, b < 128 := by
  rw [unquoteTxt_presents h, toUTF8_inj, hrecord, utf8Encode_latin1,
    flatMap_eq_self_iff fun b => String.utf8EncodeChar_ne_nil]
  exact forall₂_congr fun b _ => utf8EncodeChar_latin1 b

theorem unquoteTxt_eq_record_iff_ascii :
    unquoteTxt "\"a\" \"\\195\\169\"" = "aé" ↔
      ∀ b ∈ [[97], [195, 169]].flatten, b < (128 : UInt8) := by
  refine unquoteTxt_eq_record_iff (.more [97] 1 (.last [195, 169])) ?_
  decide

/-- The two bytes of `é` come back as two characters. -/
theorem unquoteTxt_escaped_bytes :
    Presents [[195, 169]] "\"\\195\\169\"".toList ∧
      "é".toUTF8.data.toList = [[195, 169]].flatten ∧
      unquoteTxt "\"\\195\\169\"" = "Ã©" ∧ unquoteTxt "\"\\195\\169\"" ≠ "é" := by
  have hpresents : Presents [[195, 169]] "\"\\195\\169\"".toList := .last [195, 169]
  have hread : unquoteTxt "\"\\195\\169\"" = "Ã©" := unquoteTxt_presents hpresents
  refine ⟨hpresents, by decide, hread, ?_⟩
  rw [hread]
  decide

end Connexa.Dns
