import Mathlib.Data.List.Basic
import Mathlib.Data.List.TakeWhile

/-!
# UTF-8 with replacement

Decoding bytes that need not be UTF-8: each maximal ill-formed part becomes one
U+FFFD.  What `encode` has encoded is decoded as it was (`decode_encode`), and of
any other bytes each gives one character at most (`decodeFrom_cons_le`).
-/

namespace Text

def encode (s : List Char) : List UInt8 := s.flatMap String.utf8EncodeChar

/-- The first character of the bytes, if they begin with one. -/
def decodeChar (bytes : List UInt8) : Option Char := bytes.toByteArray.utf8DecodeChar? 0

/-! ## Ill-formed bytes -/

/-- The bytes that may follow a first byte, and how many more may follow these. -/
def following (b : UInt8) : Option (UInt8 × UInt8 × Nat) :=
  if 0xC2 ≤ b ∧ b ≤ 0xDF then some (0x80, 0xBF, 0)
  else if b = 0xE0 then some (0xA0, 0xBF, 1)
  else if b = 0xED then some (0x80, 0x9F, 1)
  else if 0xE1 ≤ b ∧ b ≤ 0xEF then some (0x80, 0xBF, 1)
  else if b = 0xF0 then some (0x90, 0xBF, 2)
  else if 0xF1 ≤ b ∧ b ≤ 0xF3 then some (0x80, 0xBF, 2)
  else if b = 0xF4 then some (0x80, 0x8F, 2)
  else none

/-- How much of `rest` belongs to the ill-formed part that begins with `b`. -/
def illFormed (b : UInt8) (rest : List UInt8) : Nat :=
  match following b, rest with
  | some (low, high, more), c :: rest =>
      if low ≤ c ∧ c ≤ high then
        1 + ((rest.take more).takeWhile fun d => 0x80 ≤ d ∧ d ≤ 0xBF).length
      else 0
  | _, _ => 0

/-! ## Decoding -/

/-- Decode what is left after skipping some bytes. -/
def decodeFrom : Nat → List UInt8 → List Char
  | _, [] => []
  | skip + 1, _ :: rest => decodeFrom skip rest
  | 0, b :: rest =>
      match decodeChar (b :: rest) with
      | some c => c :: decodeFrom (c.utf8Size - 1) rest
      | none => '\uFFFD' :: decodeFrom (illFormed b rest) rest

def decode (bytes : List UInt8) : List Char := decodeFrom 0 bytes

theorem decodeFrom_append {skip : Nat} {front rest : List UInt8} (h : front.length = skip) :
    decodeFrom skip (front ++ rest) = decodeFrom 0 rest := by
  induction front generalizing skip with
  | nil =>
      subst h
      rfl
  | cons b front ih =>
      subst h
      rw [List.cons_append, List.length_cons, decodeFrom]
      exact ih rfl

/-- The encoding of a character begins its own decoding. -/
theorem decodeChar_encodeChar (c : Char) (rest : List UInt8) :
    decodeChar (String.utf8EncodeChar c ++ rest) = some c := by
  rw [decodeChar, List.toByteArray_append]
  exact ByteArray.utf8DecodeChar?_utf8EncodeChar_append

theorem decodeFrom_encodeChar (c : Char) (rest : List UInt8) :
    decodeFrom 0 (String.utf8EncodeChar c ++ rest) = c :: decodeFrom 0 rest := by
  have hchar := decodeChar_encodeChar c rest
  have hlength : (String.utf8EncodeChar c).length = c.utf8Size := String.length_utf8EncodeChar c
  have hpos := c.utf8Size_pos
  cases hbytes : String.utf8EncodeChar c with
  | nil =>
      rw [hbytes, List.length_nil] at hlength
      omega
  | cons b front =>
      rw [hbytes, List.cons_append] at hchar
      rw [hbytes, List.length_cons] at hlength
      rw [List.cons_append, decodeFrom, hchar]
      simp only
      rw [decodeFrom_append (by omega)]

/-- Decoding undoes encoding. -/
theorem decode_encode (s : List Char) : decode (encode s) = s := by
  unfold decode encode
  induction s with
  | nil => rfl
  | cons c s ih => rw [List.flatMap_cons, decodeFrom_encodeChar, ih]

/-! ## Continuation bytes -/

/-- A byte that no character begins with. -/
def continues (b : UInt8) : Bool := 0x80 ≤ b ∧ b ≤ 0xBF

/-- How many of the bytes can only be a part of what came before. -/
def continuing (bytes : List UInt8) : Nat := (bytes.takeWhile continues).length

theorem continuing_cons {b : UInt8} (h : continues b) (rest : List UInt8) :
    continuing (b :: rest) = continuing rest + 1 := by
  rw [continuing, List.takeWhile_cons_of_pos h]
  rfl

theorem continuing_of_not {b : UInt8} (h : ¬ continues b) (rest : List UInt8) :
    continuing (b :: rest) = 0 := by
  rw [continuing, List.takeWhile_cons_of_neg h]
  rfl

/-- A character is a first byte and continuing ones. -/
theorem encodeChar_shape (c : Char) : ∃ b front, String.utf8EncodeChar c = b :: front ∧
    ¬ continues b ∧ ∀ d ∈ front, continues d := by
  have hval : c.val.toNat = c.toNat := rfl
  unfold String.utf8EncodeChar continues
  simp only [decide_eq_true_eq, UInt8.le_iff_toNat_le]
  split_ifs
  · exact ⟨_, _, rfl, by simp; omega, by simp⟩
  · exact ⟨_, _, rfl, by simp; omega, by simp; omega⟩
  · exact ⟨_, _, rfl, by simp; omega, by simp; omega⟩
  · exact ⟨_, _, rfl, by simp; omega, by simp; omega⟩

theorem following_spec {b low high : UInt8} {more : Nat} (h : following b = some (low, high, more)) :
    0x80 ≤ low ∧ high ≤ 0xBF := by
  unfold following at h
  split_ifs at h <;> simp only [Option.some.injEq, Prod.mk.injEq] at h <;>
    obtain ⟨rfl, rfl, -⟩ := h <;> decide

/-- The rest of an ill-formed part is made of continuation bytes. -/
theorem illFormed_le (b : UInt8) (rest : List UInt8) : illFormed b rest ≤ continuing rest := by
  unfold illFormed
  split
  · next low high more c rest hfollowing =>
      obtain ⟨hlow, hhigh⟩ := following_spec hfollowing
      split
      · next hc =>
          have hcontinues : continues c :=
            decide_eq_true ⟨UInt8.le_trans hlow hc.1, UInt8.le_trans hc.2 hhigh⟩
          have htake : ((rest.take more).takeWhile continues).length ≤ continuing rest := by
            rw [← List.take_takeWhile]
            exact List.length_take_le' _ _
          rw [continuing_cons hcontinues, Nat.add_comm]
          exact Nat.succ_le_succ htake
      · exact Nat.zero_le _
  · exact Nat.zero_le _

theorem decodeChar_eq_some {bytes : List UInt8} {c : Char} (h : decodeChar bytes = some c) :
    ∃ rest, bytes = String.utf8EncodeChar c ++ rest := by
  obtain ⟨rest, hrest⟩ := ByteArray.exists_of_utf8DecodeChar?_eq_some h
  have hbytes := congrArg (fun b => b.data.toList) hrest
  rw [List.toList_data_toByteArray, ByteArray.toList_data_append,
    List.toList_data_toByteArray] at hbytes
  exact ⟨rest.data.toList, hbytes⟩

theorem continuing_append {front rest : List UInt8} (h : ∀ d ∈ front, continues d) :
    continuing (front ++ rest) = front.length + continuing rest := by
  rw [continuing, List.takeWhile_append_of_pos h, List.length_append]
  rfl

/-- So is the rest of a character. -/
theorem decodeChar_le {b : UInt8} {rest : List UInt8} {c : Char}
    (h : decodeChar (b :: rest) = some c) : c.utf8Size - 1 ≤ continuing rest := by
  obtain ⟨after, hafter⟩ := decodeChar_eq_some h
  obtain ⟨first, front, hchar, -, hfront⟩ := encodeChar_shape c
  have hlength := String.length_utf8EncodeChar c
  rw [hchar, List.length_cons] at hlength
  rw [hchar, List.cons_append] at hafter
  rw [(List.cons.inj hafter).2, continuing_append hfront]
  omega

/-- A byte gives one character at most. -/
theorem decodeFrom_cons_le {skip : Nat} {b : UInt8} {rest : List UInt8}
    (h : skip ≤ continuing (b :: rest)) : ∃ skip' ≤ continuing rest,
      (decodeFrom skip (b :: rest)).length ≤ (decodeFrom skip' rest).length + 1 := by
  cases skip with
  | zero =>
      rw [decodeFrom]
      split
      · next hchar => exact ⟨_, decodeChar_le hchar, Nat.le_refl _⟩
      · exact ⟨_, illFormed_le b rest, Nat.le_refl _⟩
  | succ skip =>
      have hcontinues : continues b := by
        by_contra hfirst
        rw [continuing_of_not hfirst] at h
        contradiction
      rw [continuing_cons hcontinues] at h
      exact ⟨skip, Nat.le_of_succ_le_succ h, Nat.le_succ _⟩

/-! ## ASCII -/

def IsAscii (c : Char) : Prop := c.toNat < 128

instance (c : Char) : Decidable (IsAscii c) := inferInstanceAs (Decidable (_ < _))

theorem encodeChar_ascii {c : Char} (h : IsAscii c) : String.utf8EncodeChar c = [c.toUInt8] := by
  have hval : c.val.toNat ≤ 127 := Nat.le_of_lt_succ h
  unfold String.utf8EncodeChar
  rw [if_pos hval]
  rfl

theorem encode_ascii {s : List Char} (h : ∀ c ∈ s, IsAscii c) : encode s = s.map Char.toUInt8 := by
  unfold encode
  induction s with
  | nil => rfl
  | cons c s ih =>
      rw [List.flatMap_cons, encodeChar_ascii (h c List.mem_cons_self),
        ih fun d hd => h d (List.mem_cons_of_mem c hd)]
      rfl

/-- A character beyond ASCII has no ASCII byte. -/
theorem encodeChar_nonAscii {c : Char} (h : ¬ IsAscii c) :
    ∀ b ∈ String.utf8EncodeChar c, 128 ≤ b.toNat := by
  have hval : ¬ c.val.toNat ≤ 127 := fun hle => h (Nat.lt_succ_of_le hle)
  unfold String.utf8EncodeChar
  simp only [hval, if_false]
  intro b hb
  split at hb
  · simp at hb
    rcases hb with rfl | rfl <;> simp <;> omega
  · split at hb
    · simp at hb
      rcases hb with rfl | rfl | rfl <;> simp <;> omega
    · simp at hb
      rcases hb with rfl | rfl | rfl | rfl <;> simp <;> omega

end Text
