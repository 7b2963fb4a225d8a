import FairDrop.Text.Percent
import Mathlib.Data.List.DropRight

/-!
# References and their queries

How a browser reads the reference of a link, `readReference`, and how a server
reads the query that it sends, `queryParam`.  The browser escapes what cannot
stand in a query, but not the signs that the server takes apart: `&`, `+` and
`%`.

A value comes back only if nothing is lost on the way, and it never gets longer
(`length_queryParam`, `queryParam_eq`).
-/

namespace Text.Url

/-! ## The browser -/

/-- What is taken off both ends of a reference. -/
def strippable (c : Char) : Bool := c.toNat ≤ 0x20

/-- What is taken out of a reference wherever it stands. -/
def removable (c : Char) : Bool := c = '\t' ∨ c = '\n' ∨ c = '\r'

def inQuerySet (c : Char) : Bool :=
  c.toNat ≤ 0x20 ∨ c = '"' ∨ c = '#' ∨ c = '<' ∨ c = '>' ∨ c = '\'' ∨ 0x7E < c.toNat

def percentByte (b : UInt8) : List Char := ['%', hexDigit (b.toNat / 16), hexDigit (b.toNat % 16)]

def queryChar (c : Char) : List Char :=
  if inQuerySet c then (String.utf8EncodeChar c).flatMap percentByte else [c]

/-- The query as it is sent. -/
def queryEncode (s : List Char) : List Char := s.flatMap queryChar

def isPathChar (c : Char) : Bool := c.isAlphanum ∨ c = '-' ∨ c = '_' ∨ c = '/'

/-- An absolute path of characters that all stand for themselves. -/
def plainPath (path : List Char) : Bool :=
  path.all isPathChar ∧ path[0]? = some '/' ∧ path[1]? ≠ some '/'

/-- A reference without what is stripped at its end, and without a fragment. -/
def cleaned (s : List Char) : List Char :=
  ((s.rdropWhile strippable).filter (!removable ·)).takeWhile (· ≠ '#')

/-- Path and query of a reference with a plain path; others are not read. -/
def readReference (href : List Char) : Option (List Char × List Char) :=
  let front := cleaned (href.dropWhile strippable)
  let path := front.takeWhile (· ≠ '?')
  if plainPath path then some (path, queryEncode (front.dropWhile (· ≠ '?')).tail) else none

/-! ## The server -/

def plusToSpace (c : Char) : Char := if c = '+' then ' ' else c

def decodeValue (s : List Char) : List Char := unquote (s.map plusToSpace)

/-- What stands behind the first `=`. -/
def valuePart (part : List Char) : List Char := (part.dropWhile (· ≠ '=')).tail

/-- `parse_qsl(query, keep_blank_values=True)` -/
def parseQsl (query : List Char) : List (List Char × List Char) :=
  ((query.splitOn '&').filter (· ≠ [])).map fun part =>
    (decodeValue (part.takeWhile (· ≠ '=')), decodeValue (valuePart part))

/-- Of several values the last one counts. -/
def queryParam (name query : List Char) : Option (List Char) :=
  (parseQsl query).reverse.lookup name

variable {c : Char} {s w : List Char}

/-! ## Bytes of a value -/

/-- The two digits of an escape, and what follows them. -/
def twoHex : List Char → Option (UInt8 × List Char)
  | x :: y :: rest =>
      match hexValue x, hexValue y with
      | some hi, some lo => some (UInt8.ofNat (16 * hi + lo), rest)
      | _, _ => none
  | _ => none

/-- The text contains a percent sign and two hexadecimal digits. -/
def hasEscape : List Char → Bool
  | [] => false
  | c :: s => (c = '%' ∧ (twoHex s).isSome) ∨ hasEscape s

/-- What the server makes of a value that the browser has sent, before it decodes UTF-8. -/
def valueBytes (s : List Char) : List UInt8 := unquoteToBytes ((queryEncode s).map plusToSpace)

/-- A hexadecimal digit is plain in a query. -/
theorem hexDigit_spec : ∀ n < 16, IsAscii (hexDigit n) ∧ plusToSpace (hexDigit n) = hexDigit n ∧
    hexDigit n ≠ '&' ∧ hexDigit n ≠ '=' := by decide

/-- An escape has no sign that the server takes a query apart at. -/
theorem percentByte_spec (b : UInt8) :
    ∀ d ∈ percentByte b, IsAscii d ∧ plusToSpace d = d ∧ d ≠ '&' ∧ d ≠ '=' := by
  have hb := b.toNat_lt
  intro d hd
  simp only [percentByte, List.mem_cons, List.not_mem_nil, or_false] at hd
  rcases hd with rfl | rfl | rfl
  · decide
  · exact hexDigit_spec _ (by omega)
  · exact hexDigit_spec _ (by omega)

/-- An encoded byte is read back. -/
theorem unquoteToBytes_percentByte (b : UInt8) (rest : List Char) :
    unquoteToBytes (percentByte b ++ rest) = b :: unquoteToBytes rest := by
  have hb := b.toNat_lt
  have hsplit : 16 * (b.toNat / 16) + b.toNat % 16 = b.toNat := Nat.div_add_mod _ _
  change unquoteToBytes ('%' :: hexDigit _ :: hexDigit _ :: rest) = _
  rw [unquoteToBytes_escape (by omega) (by omega), hsplit, UInt8.ofNat_toNat]

/-- Encoded bytes are read back. -/
theorem unquoteToBytes_percentBytes (bytes : List UInt8) (rest : List Char) :
    unquoteToBytes (bytes.flatMap percentByte ++ rest) = bytes ++ unquoteToBytes rest := by
  induction bytes with
  | nil => rfl
  | cons b bytes ih =>
      rw [List.flatMap_cons, List.append_assoc, unquoteToBytes_percentByte, ih, List.cons_append]

theorem queryEncode_cons (c : Char) (s : List Char) :
    queryEncode (c :: s) = queryChar c ++ queryEncode s := List.flatMap_cons

/-- What stands for a character is the character, or its escape. -/
theorem mem_queryChar {d : Char} (h : d ∈ queryChar c) :
    (d = c ∧ ¬ inQuerySet c) ∨ inQuerySet c ∧ ∃ b, d ∈ percentByte b := by
  unfold queryChar at h
  split at h
  · next hset =>
      obtain ⟨b, _, hb⟩ := List.mem_flatMap.mp h
      exact .inr ⟨hset, b, hb⟩
  · next hset => exact .inl ⟨List.mem_singleton.mp h, hset⟩

/-- What is not encoded is ASCII. -/
theorem isAscii_of_not_inQuerySet (h : ¬ inQuerySet c) : IsAscii c := by
  unfold inQuerySet at h
  unfold IsAscii
  simp only [decide_eq_true_eq, not_or] at h
  omega

/-- What is encoded begins with a percent sign. -/
theorem queryChar_of_set (h : inQuerySet c) : ∃ t, queryChar c = '%' :: t := by
  obtain ⟨b, front, hchar, -⟩ := encodeChar_shape c
  rw [queryChar, if_pos h, hchar]
  exact ⟨_, rfl⟩

/-- Hexadecimal digits are sent and read as they are. -/
theorem hexDigit_stands (h : (hexValue c).isSome) : ¬ inQuerySet c ∧ c ≠ '+' ∧ c ≠ '%' := by
  have hascii : c.toNat < 128 := by
    unfold hexValue at h
    split_ifs at h with hdigit hupper hlower
    · exact Nat.lt_of_le_of_lt hdigit.2 (by decide)
    · exact Nat.lt_of_le_of_lt hupper.2 (by decide)
    · exact Nat.lt_of_le_of_lt hlower.2 (by decide)
    · contradiction
  have hall : ∀ n < 128, (hexValue (Char.ofNat n)).isSome →
      ¬ inQuerySet (Char.ofNat n) ∧ Char.ofNat n ≠ '+' ∧ Char.ofNat n ≠ '%' := by decide +kernel
  have hchar := hall c.toNat hascii
  rw [Char.ofNat_toNat] at hchar
  exact hchar h

/-- A hexadecimal digit is not encoded. -/
theorem map_queryEncode_cons_hex {x : Char} (h : (hexValue x).isSome) :
    (queryEncode (x :: s)).map plusToSpace = x :: (queryEncode s).map plusToSpace := by
  obtain ⟨hset, hplus, -⟩ := hexDigit_stands h
  rw [queryEncode_cons, queryChar, if_neg hset, List.singleton_append, List.map_cons, plusToSpace,
    if_neg hplus]

/-- A digit in what is sent was a digit before. -/
theorem eq_cons_of_hex {x : Char} {t : List Char} (h : (hexValue x).isSome)
    (ht : (queryEncode s).map plusToSpace = x :: t) :
    ∃ s', s = x :: s' ∧ (queryEncode s').map plusToSpace = t := by
  obtain ⟨-, -, hpercent⟩ := hexDigit_stands h
  cases s with
  | nil => contradiction
  | cons c s =>
      rw [queryEncode_cons] at ht
      by_cases hset : inQuerySet c
      · obtain ⟨front, hfront⟩ := queryChar_of_set hset
        rw [hfront] at ht
        exact absurd (List.cons.inj ht).1.symm hpercent
      · rw [queryChar, if_neg hset, List.singleton_append, List.map_cons] at ht
        obtain ⟨hx, hrest⟩ := List.cons.inj ht
        have hc : c = x := by
          unfold plusToSpace at hx
          split at hx
          · subst hx
            contradiction
          · exact hx
        exact ⟨s, by rw [hc], hrest⟩

/-- Two hexadecimal digits are a byte. -/
theorem twoHex_eq_some {b : UInt8} {rest : List Char} (h : twoHex s = some (b, rest)) :
    ∃ x y hi lo, s = x :: y :: rest ∧ hexValue x = some hi ∧ hexValue y = some lo ∧
      b = UInt8.ofNat (16 * hi + lo) := by
  unfold twoHex at h
  split at h
  · next x y _ =>
      split at h
      · next hi lo hhi hlo =>
          obtain ⟨rfl, rfl⟩ := Prod.mk.inj (Option.some.inj h)
          exact ⟨x, y, hi, lo, rfl, hhi, hlo, rfl⟩
      · contradiction
  · contradiction

/-- A percent sign without two digits behind it stays. -/
theorem unquoteToBytes_percent (h : twoHex s = none) :
    unquoteToBytes ('%' :: s) = '%'.toUInt8 :: unquoteToBytes s := by
  match s with
  | [] | [_] => rfl
  | x :: y :: rest =>
      rw [unquoteToBytes, if_pos rfl]
      rw [twoHex] at h
      split
      · next hhi hlo =>
          rw [hhi, hlo] at h
          contradiction
      · rfl

/-- Encoding makes no escape that was not there. -/
theorem twoHex_queryEncode (h : twoHex s = none) :
    twoHex ((queryEncode s).map plusToSpace) = none := by
  cases hsent : twoHex ((queryEncode s).map plusToSpace) with
  | none => rfl
  | some escape =>
      obtain ⟨x, y, hi, lo, ht, hhi, hlo, -⟩ := twoHex_eq_some hsent
      obtain ⟨s', rfl, hs'⟩ := eq_cons_of_hex (Option.isSome_of_eq_some hhi) ht
      obtain ⟨s'', rfl, -⟩ := eq_cons_of_hex (Option.isSome_of_eq_some hlo) hs'
      rw [twoHex, hhi, hlo] at h
      contradiction

/-- An escape counts as its byte. -/
theorem valueBytes_escape {b : UInt8} {rest : List Char} (h : twoHex s = some (b, rest)) :
    valueBytes ('%' :: s) = b :: valueBytes rest := by
  obtain ⟨x, y, hi, lo, rfl, hhi, hlo, rfl⟩ := twoHex_eq_some h
  have hpercent : (queryEncode ('%' :: x :: y :: rest)).map plusToSpace =
      '%' :: x :: y :: (queryEncode rest).map plusToSpace := by
    rw [queryEncode_cons, queryChar, if_neg (by decide), List.singleton_append, List.map_cons,
      map_queryEncode_cons_hex (Option.isSome_of_eq_some hhi),
      map_queryEncode_cons_hex (Option.isSome_of_eq_some hlo)]
    rfl
  rw [valueBytes, hpercent, unquoteToBytes, if_pos rfl, hhi, hlo]
  rfl

/-- Any other character counts as its bytes, a plus sign as a space. -/
theorem valueBytes_cons (h : c = '%' → twoHex s = none) :
    valueBytes (c :: s) = String.utf8EncodeChar (plusToSpace c) ++ valueBytes s := by
  unfold valueBytes
  rw [queryEncode_cons, List.map_append, queryChar]
  split
  · next hset =>
      have hplus : c ≠ '+' := by
        rintro rfl
        exact absurd hset (by decide)
      have hbytes : ((String.utf8EncodeChar c).flatMap percentByte).map plusToSpace =
          (String.utf8EncodeChar c).flatMap percentByte := by
        conv_rhs => rw [← List.map_id ((String.utf8EncodeChar c).flatMap percentByte)]
        refine List.map_congr_left fun d hd => ?_
        obtain ⟨b, _, hb⟩ := List.mem_flatMap.mp hd
        exact (percentByte_spec b d hb).2.1
      rw [hbytes, unquoteToBytes_percentBytes, plusToSpace, if_neg hplus]
  · next hset =>
      have hascii := isAscii_of_not_inQuerySet hset
      rw [List.map_singleton, List.singleton_append]
      by_cases hpercent : c = '%'
      · subst hpercent
        exact unquoteToBytes_percent (twoHex_queryEncode (h rfl))
      · have hplain : plusToSpace c ≠ '%' ∧ IsAscii (plusToSpace c) := by
          unfold plusToSpace
          split
          · decide
          · exact ⟨hpercent, hascii⟩
        rw [unquoteToBytes_cons hplain.1, encodeChar_ascii hplain.2, List.singleton_append]

/-! ## A value on its way -/

/-- What a browser sends is decoded to the bytes of the text. -/
theorem decodeValue_queryEncode (s : List Char) :
    decodeValue (queryEncode s) = decode (valueBytes s) := by
  refine unquote_ascii fun d hd => ?_
  obtain ⟨e, he, rfl⟩ := List.mem_map.mp hd
  obtain ⟨c, _, hc⟩ := List.mem_flatMap.mp he
  unfold plusToSpace
  split
  · decide
  · obtain ⟨rfl, hset⟩ | ⟨_, b, hb⟩ := mem_queryChar hc
    · exact isAscii_of_not_inQuerySet hset
    · exact (percentByte_spec b e hb).1

/-- The bytes of a character open with one that does not continue another. -/
theorem continuing_encodeChar (c : Char) (rest : List UInt8) :
    continuing (String.utf8EncodeChar c ++ rest) = 0 := by
  obtain ⟨b, front, hchar, hfirst, -⟩ := encodeChar_shape c
  rw [hchar, List.cons_append, continuing_of_not hfirst]

/-- Each character and each escape gives one character at most. -/
theorem length_decodeFrom_valueBytes {skip : Nat} (h : skip ≤ continuing (valueBytes s)) :
    (decodeFrom skip (valueBytes s)).length + (hasEscape s).toNat ≤ s.length := by
  induction hlength : s.length using Nat.strong_induction_on generalizing s skip with
  | _ length ih =>
      subst hlength
      cases s with
      | nil =>
          change (decodeFrom skip []).length + 0 ≤ 0
          rw [decodeFrom]
          exact Nat.le_refl _
      | cons c s =>
          by_cases hescape : c = '%' ∧ (twoHex s).isSome
          · obtain ⟨rfl, hsome⟩ := hescape
            obtain ⟨⟨b, rest⟩, htwo⟩ := Option.isSome_iff_exists.mp hsome
            obtain ⟨x, y, _, _, rfl, -⟩ := twoHex_eq_some htwo
            rw [valueBytes_escape htwo] at h ⊢
            obtain ⟨skip', hskip, hle⟩ := decodeFrom_cons_le h
            have hrest := ih rest.length (by simp only [List.length_cons]; omega) hskip rfl
            have hone := Bool.toNat_le (hasEscape ('%' :: x :: y :: rest))
            simp only [List.length_cons]
            omega
          · have hnone : c = '%' → twoHex s = none := by
              intro hpercent
              rw [← Option.not_isSome_iff_eq_none]
              exact fun hsome => hescape ⟨hpercent, hsome⟩
            have hsame : hasEscape (c :: s) = hasEscape s := by simp [hasEscape, hescape]
            rw [valueBytes_cons hnone] at h ⊢
            rw [continuing_encodeChar, Nat.le_zero] at h
            subst h
            have htail := ih s.length (Nat.lt_succ_self _) (Nat.zero_le _) rfl
            rw [decodeFrom_encodeChar, hsame, List.length_cons, List.length_cons]
            omega

/-- Decoding makes a text no longer, and an escape makes it shorter. -/
theorem length_decodeValue (s : List Char) :
    (decodeValue (queryEncode s)).length + (hasEscape s).toNat ≤ s.length := by
  rw [decodeValue_queryEncode]
  exact length_decodeFrom_valueBytes (Nat.zero_le _)

/-- Without an escape only the plus signs change. -/
theorem decodeValue_eq (h : hasEscape s = false) :
    decodeValue (queryEncode s) = s.map plusToSpace := by
  rw [decodeValue_queryEncode]
  unfold decode
  induction s with
  | nil => rfl
  | cons c s ih =>
      rw [hasEscape, decide_eq_false_iff_not, not_or] at h
      have hnone : c = '%' → twoHex s = none := by
        intro hpercent
        rw [← Option.not_isSome_iff_eq_none]
        exact fun hsome => h.1 ⟨hpercent, hsome⟩
      rw [valueBytes_cons hnone, decodeFrom_encodeChar, ih (Bool.eq_false_iff.mpr h.2),
        List.map_cons]

/-! ## Parameters -/

/-- The separators of a query are sent as they are, and no other character makes one. -/
theorem mem_queryEncode {sep : Char} (h : sep = '&' ∨ sep = '=') :
    sep ∈ queryEncode s ↔ sep ∈ s := by
  have hset : ¬ inQuerySet sep := by rcases h with rfl | rfl <;> decide
  constructor
  · intro hmem
    obtain ⟨c, hc, hsep⟩ := List.mem_flatMap.mp hmem
    obtain ⟨rfl, -⟩ | ⟨-, b, hb⟩ := mem_queryChar hsep
    · exact hc
    · obtain ⟨-, -, hampersand, hequals⟩ := percentByte_spec b sep hb
      tauto
  · intro hmem
    refine List.mem_flatMap.mpr ⟨sep, hmem, ?_⟩
    rw [queryChar, if_neg hset]
    exact List.mem_singleton_self sep

/-- Texts are encoded one by one. -/
theorem queryEncode_append (s t : List Char) :
    queryEncode (s ++ t) = queryEncode s ++ queryEncode t := List.flatMap_append

/-- A query is one part, or a part before the others. -/
theorem parts_induct {P : List Char → Prop} (last : ∀ s, '&' ∉ s → P s)
    (part : ∀ front rest, '&' ∉ front → P rest → P (front ++ '&' :: rest)) (s : List Char) :
    P s := by
  induction hlength : s.length using Nat.strong_induction_on generalizing s with
  | _ length ih =>
      subst hlength
      by_cases hmem : '&' ∈ s
      · obtain ⟨front, rest, rfl, hfront⟩ := List.eq_append_cons_of_mem hmem
        refine part front rest hfront (ih rest.length ?_ rest rfl)
        simp only [List.length_append, List.length_cons]
        omega
      · exact last s hmem

/-- Encoding leaves the ampersands in place. -/
theorem splitOn_queryEncode (s : List Char) :
    (queryEncode s).splitOn '&' = (s.splitOn '&').map queryEncode := by
  induction s using parts_induct with
  | last s hs =>
      rw [List.splitOn_eq_singleton hs,
        List.splitOn_eq_singleton (mt (mem_queryEncode (.inl rfl)).mp hs), List.map_singleton]
  | part front rest hfront ih =>
      rw [queryEncode_append, queryEncode_cons, queryChar, if_neg (by decide),
        List.singleton_append, List.splitOn_append_cons_self_of_not_mem hfront, List.map_cons,
        List.splitOn_append_cons_self_of_not_mem (mt (mem_queryEncode (.inl rfl)).mp hfront), ih]

/-- A part is no longer than the whole. -/
theorem length_splitOn (s : List Char) : ∀ part ∈ s.splitOn '&', part.length ≤ s.length := by
  induction s using parts_induct with
  | last s hs =>
      rw [List.splitOn_eq_singleton hs]
      exact List.forall_mem_singleton.mpr (Nat.le_refl _)
  | part front rest hfront ih =>
      rw [List.splitOn_append_cons_self_of_not_mem hfront, List.forall_mem_cons,
        List.length_append, List.length_cons]
      refine ⟨by omega, fun part hpart => ?_⟩
      have hle := ih part hpart
      omega

/-- A value is no longer than its part. -/
theorem length_valuePart (part : List Char) : (valuePart part).length ≤ part.length := by
  have hsuffix := (List.dropWhile_suffix (l := part) (· ≠ '=')).length_le
  rw [valuePart, List.length_tail]
  omega

/-- Without an equals sign there is no value. -/
theorem valuePart_of_not_mem {part : List Char} (h : '=' ∉ part) : valuePart part = [] := by
  rw [valuePart, List.dropWhile_eq_nil_iff.mpr, List.tail_nil]
  exact fun c hc => decide_eq_true (ne_of_mem_of_not_mem hc h)

/-- The first equals sign ends the name. -/
theorem takeWhile_name {front : List Char} (rest : List Char) (h : '=' ∉ front) :
    (front ++ '=' :: rest).takeWhile (· ≠ '=') = front ∧
      valuePart (front ++ '=' :: rest) = rest := by
  have hfront : ∀ c ∈ front, decide (c ≠ '=') = true :=
    fun c hc => decide_eq_true (ne_of_mem_of_not_mem hc h)
  refine ⟨?_, ?_⟩
  · rw [List.takeWhile_append_of_pos hfront, List.takeWhile_cons_of_neg (by decide),
      List.append_nil]
  · rw [valuePart, List.dropWhile_append_of_pos hfront, List.dropWhile_cons_of_neg (by decide),
      List.tail_cons]

/-- Encoding leaves the equals sign in place. -/
theorem valuePart_queryEncode (part : List Char) :
    valuePart (queryEncode part) = queryEncode (valuePart part) := by
  by_cases hmem : '=' ∈ part
  · obtain ⟨front, rest, rfl, hfront⟩ := List.eq_append_cons_of_mem hmem
    rw [queryEncode_append, queryEncode_cons, queryChar, if_neg (by decide),
      List.singleton_append, (takeWhile_name _ hfront).2,
      (takeWhile_name _ (mt (mem_queryEncode (.inr rfl)).mp hfront)).2]
  · rw [valuePart_of_not_mem hmem, valuePart_of_not_mem (mt (mem_queryEncode (.inr rfl)).mp hmem)]
    rfl

/-- A parameter that was sent is the value of some part. -/
theorem queryParam_mem {name value : List Char} (h : queryParam name (queryEncode s) = some value) :
    ∃ part ∈ s.splitOn '&', value = decodeValue (queryEncode (valuePart part)) := by
  obtain ⟨before, after, hpairs, -⟩ := List.lookup_eq_some_iff.mp h
  have hmem : (name, value) ∈ (parseQsl (queryEncode s)).reverse := by
    rw [hpairs]
    exact List.mem_append_right before List.mem_cons_self
  rw [List.mem_reverse, parseQsl, List.mem_map] at hmem
  obtain ⟨sent, hsent, heq⟩ := hmem
  have hpart := (List.mem_filter.mp hsent).1
  rw [splitOn_queryEncode, List.mem_map] at hpart
  obtain ⟨part, hpart, rfl⟩ := hpart
  refine ⟨part, hpart, ?_⟩
  rw [← valuePart_queryEncode]
  exact (Prod.mk.inj heq).2.symm

/-- A character that means nothing but itself in a query. -/
def stands (c : Char) : Bool := ¬ inQuerySet c ∧ c ≠ '&' ∧ c ≠ '=' ∧ c ≠ '+' ∧ c ≠ '%'

section
variable {name value : List Char}

/-- A character that stands means nothing to a query. -/
theorem stands_spec (h : stands c) :
    ¬ inQuerySet c ∧ c ≠ '&' ∧ c ≠ '=' ∧ c ≠ '+' ∧ c ≠ '%' := of_decide_eq_true h

/-- A name of such characters is not cut. -/
theorem not_mem_of_stands (h : ∀ c ∈ name, stands c) : '&' ∉ name ∧ '=' ∉ name :=
  ⟨fun hmem => absurd (h _ hmem) (by decide), fun hmem => absurd (h _ hmem) (by decide)⟩

/-- Nor is it encoded. -/
theorem queryEncode_of_stands (h : ∀ c ∈ name, stands c) : queryEncode name = name := by
  induction name with
  | nil => rfl
  | cons c name ih =>
      have hc := stands_spec (h c List.mem_cons_self)
      rw [queryEncode_cons, queryChar, if_neg hc.1,
        ih fun d hd => h d (List.mem_cons_of_mem c hd), List.singleton_append]

/-- Nor is it decoded. -/
theorem decodeValue_of_stands (h : ∀ c ∈ name, stands c) : decodeValue name = name := by
  have hmap : name.map plusToSpace = name := by
    conv_rhs => rw [← List.map_id name]
    refine List.map_congr_left fun c hc => if_neg ?_
    exact (stands_spec (h c hc)).2.2.2.1
  have hpercent : '%' ∉ name := fun hmem => absurd (h _ hmem) (by decide)
  rw [decodeValue, hmap, unquote, if_neg hpercent]

/-- A value that is no shorter than what was written has nothing in it that the
server takes apart or decodes. -/
theorem length_queryParam (hname : ∀ c ∈ name, stands c)
    (h : queryParam name (queryEncode (name ++ '=' :: w)) = some value)
    (hlength : w.length ≤ value.length) : '&' ∉ w ∧ hasEscape w = false := by
  obtain ⟨hampersand, hequals⟩ := not_mem_of_stands hname
  obtain ⟨part, hpart, rfl⟩ := queryParam_mem h
  have hvalue := length_decodeValue (valuePart part)
  have hwhole : '&' ∉ w := by
    intro hmem
    obtain ⟨front, rest, rfl, hfront⟩ := List.eq_append_cons_of_mem hmem
    have hfirst : '&' ∉ name ++ '=' :: front := by
      rw [List.mem_append, List.mem_cons]
      rintro (hmem | hmem | hmem)
      · exact hampersand hmem
      · contradiction
      · exact hfront hmem
    rw [← List.cons_append, ← List.append_assoc,
      List.splitOn_append_cons_self_of_not_mem hfirst, List.mem_cons] at hpart
    rw [List.length_append, List.length_cons] at hlength
    rcases hpart with rfl | hrest
    · rw [(takeWhile_name _ hequals).2] at hvalue hlength
      omega
    · have hpart := length_splitOn _ _ hrest
      have hle := length_valuePart part
      omega
  have hall : '&' ∉ name ++ '=' :: w := by
    rw [List.mem_append, List.mem_cons]
    rintro (hmem | hmem | hmem)
    · exact hampersand hmem
    · contradiction
    · exact hwhole hmem
  rw [List.splitOn_eq_singleton hall, List.mem_singleton] at hpart
  subst hpart
  rw [(takeWhile_name _ hequals).2] at hvalue hlength
  exact ⟨hwhole, Bool.toNat_eq_zero.mp (by omega)⟩

/-- The parameter arrives as it is, but for the plus signs. -/
theorem queryParam_eq (hname : ∀ c ∈ name, stands c) (hampersand : '&' ∉ w)
    (hescape : hasEscape w = false) :
    queryParam name (queryEncode (name ++ '=' :: w)) = some (w.map plusToSpace) := by
  obtain ⟨hname_ampersand, hequals⟩ := not_mem_of_stands hname
  have hall : '&' ∉ queryEncode (name ++ '=' :: w) := by
    rw [mem_queryEncode (.inl rfl), List.mem_append, List.mem_cons]
    rintro (hmem | hmem | hmem)
    · exact hname_ampersand hmem
    · contradiction
    · exact hampersand hmem
  have hsent : queryEncode (name ++ '=' :: w) = name ++ '=' :: queryEncode w := by
    rw [queryEncode_append, queryEncode_of_stands hname, queryEncode_cons, queryChar,
      if_neg (by decide), List.singleton_append]
  have hpairs : parseQsl (queryEncode (name ++ '=' :: w)) = [(name, w.map plusToSpace)] := by
    obtain ⟨hfront, hback⟩ := takeWhile_name (queryEncode w) hequals
    rw [parseQsl, List.splitOn_eq_singleton hall, hsent, List.filter_cons_of_pos (by simp),
      List.filter_nil, List.map_singleton, hfront, hback, decodeValue_of_stands hname,
      decodeValue_eq hescape]
  rw [queryParam, hpairs, List.reverse_singleton, List.lookup_cons_self]

/-- A blank comes back, an escape that was written does not, and the last value counts. -/
example : queryParam "k".toList (queryEncode "k=1&k=a b%41".toList) = some "a bA".toList := by
  decide

end

/-! ## References -/

/-- Cleaning only removes. -/
theorem cleaned_sublist (s : List Char) : (cleaned s).Sublist s :=
  ((List.takeWhile_sublist _).trans List.filter_sublist).trans
    (List.rdropWhile_prefix strippable s).sublist

theorem rdropWhile_append_cons {p : Char → Bool} {front rest : List Char} (h : ¬ p c) :
    (front ++ c :: rest).rdropWhile p = front ++ c :: rest.rdropWhile p := by
  induction rest using List.reverseRecOn with
  | nil => rw [List.rdropWhile_concat_neg p front c h, List.rdropWhile_nil]
  | append_singleton rest d ih =>
      rw [← List.cons_append, ← List.append_assoc, List.rdropWhile_concat, List.rdropWhile_concat]
      split
      · exact ih
      · rw [List.append_assoc, List.cons_append]

/-- What a browser removes inside it strips at the ends. -/
theorem strippable_of_removable (h : removable c) : strippable c := by
  unfold removable at h
  simp only [decide_eq_true_eq] at h
  rcases h with rfl | rfl | rfl <;> decide

/-- What a character is not if it stays in a reference and does not end it. -/
theorem not_removable (hstrip : ¬ strippable c) (hhash : c ≠ '#') :
    (!removable c) = true ∧ decide (c ≠ '#') = true := by
  refine ⟨?_, decide_eq_true hhash⟩
  rw [Bool.not_eq_true', Bool.eq_false_iff]
  exact fun hremovable => hstrip (strippable_of_removable hremovable)

/-- A character of a path is none that a browser removes or cuts at. -/
theorem isPathChar_spec (h : isPathChar c) : ¬ strippable c ∧ c ≠ '#' ∧ c ≠ '?' := by
  refine ⟨fun hstrip => ?_, ?_, ?_⟩
  · have hall : ∀ n ≤ 0x20, ¬ isPathChar (Char.ofNat n) := by decide
    have hchar := hall c.toNat (of_decide_eq_true hstrip)
    rw [Char.ofNat_toNat] at hchar
    exact hchar h
  · rintro rfl
    contradiction
  · rintro rfl
    contradiction

/-- A part that stays as it is, up to a character that does so too. -/
theorem cleaned_append_cons {front : List Char}
    (hfront : ∀ d ∈ front, ¬ strippable d ∧ d ≠ '#') (hstrip : ¬ strippable c) (hhash : c ≠ '#') :
    cleaned (front ++ c :: s) = front ++ c :: cleaned s := by
  have hkept : ∀ d ∈ front, (!removable d) = true ∧ decide (d ≠ '#') = true :=
    fun d hd => not_removable (hfront d hd).1 (hfront d hd).2
  have hc := not_removable hstrip hhash
  rw [cleaned, rdropWhile_append_cons hstrip, List.filter_append,
    List.filter_eq_self.mpr fun d hd => (hkept d hd).1,
    List.filter_cons_of_pos (p := (!removable ·)) hc.1,
    List.takeWhile_append_of_pos fun d hd => (hkept d hd).2,
    List.takeWhile_cons_of_pos (p := (· ≠ '#')) hc.2]
  rfl

/-- A plain path is read as it is, up to the `?`. -/
theorem readReference_eq {path : List Char} (h : plainPath path) :
    readReference (path ++ '?' :: s) = some (path, queryEncode (cleaned s)) := by
  have hplain := h
  unfold plainPath at hplain
  simp only [decide_eq_true_eq] at hplain
  obtain ⟨hall, hslash, -⟩ := hplain
  have hchar : ∀ c ∈ path, ¬ strippable c ∧ c ≠ '#' ∧ c ≠ '?' :=
    fun c hc => isPathChar_spec (List.all_eq_true.mp hall c hc)
  have hstart : (path ++ '?' :: s).dropWhile strippable = path ++ '?' :: s := by
    cases path with
    | nil => contradiction
    | cons c path => exact List.dropWhile_cons_of_neg (hchar c List.mem_cons_self).1
  have hfront : cleaned (path ++ '?' :: s) = path ++ '?' :: cleaned s :=
    cleaned_append_cons (fun c hc => ⟨(hchar c hc).1, (hchar c hc).2.1⟩) (by decide) (by decide)
  have hpath : ∀ c ∈ path, decide (c ≠ '?') = true := fun c hc => decide_eq_true (hchar c hc).2.2
  simp only [readReference, hstart, hfront, List.takeWhile_append_of_pos hpath,
    List.dropWhile_append_of_pos hpath]
  simpa using h

/-- Cleaning leaves the name in front. -/
theorem cleaned_name {name : List Char} (h : ∀ c ∈ name, stands c) :
    cleaned (name ++ '=' :: w) = name ++ '=' :: cleaned w := by
  refine cleaned_append_cons (fun c hc => ?_) (by decide) (by decide)
  have hset := (stands_spec (h c hc)).1
  unfold inQuerySet at hset
  simp only [decide_eq_true_eq, not_or] at hset
  exact ⟨fun hstrip => hset.1 (of_decide_eq_true hstrip), hset.2.2.1⟩

/-- A query that is read in full. -/
theorem cleaned_eq_self_iff : cleaned s = s ↔
    (∀ c ∈ s, c ≠ '#' ∧ ¬ removable c) ∧ s.rdropWhile strippable = s := by
  constructor
  · intro h
    have hstrip : s.rdropWhile strippable = s := by
      have hprefix := List.rdropWhile_prefix strippable s
      have hsublist : (cleaned s).Sublist (s.rdropWhile strippable) :=
        (List.takeWhile_sublist _).trans List.filter_sublist
      have hlength := hsublist.length_le
      rw [h] at hlength
      exact hprefix.eq_of_length_le hlength
    refine ⟨fun c hc => ?_, hstrip⟩
    rw [← h, cleaned] at hc
    have hhash := List.mem_takeWhile_imp hc
    have hkept := List.of_mem_filter (List.takeWhile_subset _ hc)
    simpa using And.intro hhash hkept
  · rintro ⟨hchar, hstrip⟩
    have hfilter : s.filter (!removable ·) = s :=
      List.filter_eq_self.mpr fun c hc => by simpa using (hchar c hc).2
    rw [cleaned, hstrip, hfilter, List.takeWhile_eq_self_iff]
    exact fun c hc => decide_eq_true (hchar c hc).1

end Text.Url
