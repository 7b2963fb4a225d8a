import FairDrop.Text.Utf8

/-!
# Percent-encoding

Go's `url.QueryEscape` and Python's `urllib.parse.unquote`.  They are not quite
inverse: the first one writes a space as `+`, which the second one leaves alone
(`unquote_queryEscape`).
-/

namespace Text

/-! ## Hexadecimal digits -/

def hexDigit (n : Nat) : Char := Char.ofNat (if n < 10 then 48 + n else 55 + n)

def hexValue (c : Char) : Option Nat :=
  if '0' ≤ c ∧ c ≤ '9' then some (c.toNat - 48)
  else if 'A' ≤ c ∧ c ≤ 'F' then some (c.toNat - 55)
  else if 'a' ≤ c ∧ c ≤ 'f' then some (c.toNat - 87)
  else none

theorem hexValue_hexDigit : ∀ n < 16, hexValue (hexDigit n) = some n := by decide

theorem isAscii_hexDigit : ∀ n < 16, IsAscii (hexDigit n) := by decide

/-! ## `url.QueryEscape` -/

def unreserved (b : UInt8) : Bool :=
  let c := Char.ofNat b.toNat
  IsAscii c ∧ (c.isAlphanum ∨ c = '-' ∨ c = '_' ∨ c = '.' ∨ c = '~')

def escapeByte (b : UInt8) : List Char :=
  if b = 0x20 then ['+']
  else if unreserved b then [Char.ofNat b.toNat]
  else ['%', hexDigit (b.toNat / 16), hexDigit (b.toNat % 16)]

def queryEscape (s : List Char) : List Char := (encode s).flatMap escapeByte

/-! ## `urllib.parse.unquote` -/

/-- `unquote_to_bytes` of an ASCII text. -/
def unquoteToBytes : List Char → List UInt8
  | [] => []
  | [c] => [c.toUInt8]
  | [c, d] => [c.toUInt8, d.toUInt8]
  | c :: x :: y :: rest =>
      if c = '%' then match hexValue x, hexValue y with
        | some hi, some lo => UInt8.ofNat (16 * hi + lo) :: unquoteToBytes rest
        | _, _ => c.toUInt8 :: unquoteToBytes (x :: y :: rest)
      else c.toUInt8 :: unquoteToBytes (x :: y :: rest)

/-- Decode each run of ASCII characters; `run` is the one that is being read. -/
def unquoteParts : List Char → List Char → List Char
  | run, [] => decode (unquoteToBytes run)
  | run, c :: s =>
      if IsAscii c then unquoteParts (run ++ [c]) s
      else decode (unquoteToBytes run) ++ c :: unquoteParts [] s

def unquote (s : List Char) : List Char := if '%' ∈ s then unquoteParts [] s else s

theorem unquoteToBytes_cons {c : Char} (hc : c ≠ '%') (rest : List Char) :
    unquoteToBytes (c :: rest) = c.toUInt8 :: unquoteToBytes rest := by
  match rest with
  | [] | [_] => rfl
  | x :: y :: rest => rw [unquoteToBytes, if_neg hc]

theorem unquoteToBytes_escape {hi lo : Nat} (hhi : hi < 16) (hlo : lo < 16) (rest : List Char) :
    unquoteToBytes ('%' :: hexDigit hi :: hexDigit lo :: rest) =
      UInt8.ofNat (16 * hi + lo) :: unquoteToBytes rest := by
  rw [unquoteToBytes, if_pos rfl, hexValue_hexDigit hi hhi, hexValue_hexDigit lo hlo]

/-- Without a percent sign nothing is decoded. -/
theorem unquoteToBytes_plain {s : List Char} (h : '%' ∉ s) :
    unquoteToBytes s = s.map Char.toUInt8 := by
  induction s with
  | nil => rfl
  | cons c s ih =>
      rw [List.mem_cons, not_or] at h
      rw [unquoteToBytes_cons (Ne.symm h.1), ih h.2]
      rfl

theorem unquoteParts_ascii {run s : List Char} (h : ∀ c ∈ s, IsAscii c) :
    unquoteParts run s = decode (unquoteToBytes (run ++ s)) := by
  induction s generalizing run with
  | nil => rw [unquoteParts, List.append_nil]
  | cons c s ih =>
      rw [unquoteParts, if_pos (h c List.mem_cons_self),
        ih fun d hd => h d (List.mem_cons_of_mem c hd), ← List.append_cons]

/-- An ASCII text is one run, with or without a percent sign. -/
theorem unquote_ascii {s : List Char} (h : ∀ c ∈ s, IsAscii c) :
    unquote s = decode (unquoteToBytes s) := by
  unfold unquote
  split
  · rw [unquoteParts_ascii h, List.nil_append]
  · next hplain => rw [unquoteToBytes_plain hplain, ← encode_ascii h, decode_encode]

/-! ## There and back -/

def plusForSpace (c : Char) : Char := if c = ' ' then '+' else c

/-- What holds of all 256 bytes holds of every byte. -/
theorem forall_byte {P : UInt8 → Prop} (h : ∀ n < 256, P (UInt8.ofNat n)) (b : UInt8) : P b := by
  have hb := h b.toNat b.toNat_lt
  rwa [UInt8.ofNat_toNat] at hb

theorem unreserved_spec (b : UInt8) : unreserved b → IsAscii (Char.ofNat b.toNat) ∧
    Char.ofNat b.toNat ≠ '%' ∧ (Char.ofNat b.toNat).toUInt8 = b :=
  forall_byte (P := fun b => unreserved b → IsAscii (Char.ofNat b.toNat) ∧
    Char.ofNat b.toNat ≠ '%' ∧ (Char.ofNat b.toNat).toUInt8 = b) (by decide +kernel) b

theorem isAscii_escapeByte (b : UInt8) : ∀ c ∈ escapeByte b, IsAscii c := by
  have hb := b.toNat_lt
  unfold escapeByte
  split
  · intro c hc
    rw [List.mem_singleton.mp hc]
    decide
  · split
    · next hunreserved =>
        intro c hc
        rw [List.mem_singleton.mp hc]
        exact (unreserved_spec b hunreserved).1
    · intro c hc
      simp only [List.mem_cons, List.not_mem_nil, or_false] at hc
      rcases hc with rfl | rfl | rfl
      · decide
      · exact isAscii_hexDigit _ (by omega)
      · exact isAscii_hexDigit _ (by omega)

/-- A byte comes back, unless it is that of a space. -/
theorem unquoteToBytes_escapeByte (b : UInt8) (rest : List Char) :
    unquoteToBytes (escapeByte b ++ rest) = (if b = 0x20 then 0x2B else b) :: unquoteToBytes rest := by
  have hb := b.toNat_lt
  unfold escapeByte
  split
  · exact unquoteToBytes_cons (by decide) rest
  · split
    · next hunreserved =>
        obtain ⟨_, hpercent, hback⟩ := unreserved_spec b hunreserved
        rw [List.singleton_append, unquoteToBytes_cons hpercent, hback]
    · have hsplit : 16 * (b.toNat / 16) + b.toNat % 16 = b.toNat := Nat.div_add_mod _ _
      change unquoteToBytes ('%' :: hexDigit _ :: hexDigit _ :: rest) = _
      rw [unquoteToBytes_escape (by omega) (by omega), hsplit, UInt8.ofNat_toNat]

theorem unquoteToBytes_escapeBytes (bytes : List UInt8) :
    unquoteToBytes (bytes.flatMap escapeByte) =
      bytes.map fun b => if b = 0x20 then 0x2B else b := by
  induction bytes with
  | nil => rfl
  | cons b bytes ih => rw [List.flatMap_cons, unquoteToBytes_escapeByte, ih, List.map_cons]

/-- The byte of a space encodes nothing but spaces. -/
theorem encodeChar_plusForSpace (c : Char) :
    ((String.utf8EncodeChar c).map fun b => if b = 0x20 then 0x2B else b) =
      String.utf8EncodeChar (plusForSpace c) := by
  unfold plusForSpace
  split
  · next hc =>
      subst hc
      decide
  · next hc =>
      conv_rhs => rw [← List.map_id (String.utf8EncodeChar c)]
      apply List.map_congr_left
      intro b hb
      refine if_neg fun hspace => ?_
      subst hspace
      by_cases hascii : IsAscii c
      · rw [encodeChar_ascii hascii, List.mem_singleton] at hb
        have hmod : 32 = c.toNat % 256 := congrArg UInt8.toNat hb
        have hnat : c.toNat = 32 := by
          unfold IsAscii at hascii
          omega
        exact hc (by rw [← Char.ofNat_toNat c, hnat])
      · have hbyte := encodeChar_nonAscii hascii _ hb
        contradiction

theorem encode_plusForSpace (s : List Char) :
    ((encode s).map fun b => if b = 0x20 then 0x2B else b) = encode (s.map plusForSpace) := by
  unfold encode
  rw [List.map_flatMap, List.flatMap_map]
  simp only [encodeChar_plusForSpace]

/-- Unquoting undoes escaping, except that spaces have become plus signs. -/
theorem unquote_queryEscape (s : List Char) : unquote (queryEscape s) = s.map plusForSpace := by
  have hascii : ∀ c ∈ queryEscape s, IsAscii c := by
    intro c hc
    obtain ⟨b, _, hb⟩ := List.mem_flatMap.mp hc
    exact isAscii_escapeByte b c hb
  rw [unquote_ascii hascii, queryEscape, unquoteToBytes_escapeBytes, encode_plusForSpace,
    decode_encode]

/-- Texts without a space come back. -/
theorem map_plusForSpace_eq_self {s : List Char} : s.map plusForSpace = s ↔ ' ' ∉ s := by
  constructor
  · intro h hmem
    obtain ⟨c, hc, hspace⟩ := List.mem_map.mp (h ▸ hmem)
    unfold plusForSpace at hspace
    split at hspace
    · contradiction
    · contradiction
  · intro h
    conv_rhs => rw [← List.map_id s]
    apply List.map_congr_left
    intro c hc
    have hne : c ≠ ' ' := by
      rintro rfl
      exact h hc
    exact if_neg hne

end Text
