import FairDrop.Text.References
import Mathlib.Data.List.TakeWhile

/-!
# Reading markup

HTML as a browser reads it: the characters and tags of a text, one step per
character.  Comments, declarations and the contents of elements such as `script`
are left unread, with all that follows them.

Text that opens a tag does not come out as the characters it went in
(`run_text_iff`), and an attribute ends where its quote does (`run_value`).
-/

namespace Text.Html

/-! ## Tokens -/

inductive Token where
  | char (c : Char)
  | startTag (name : List Char) (attributes : List (List Char × List Char))
  | endTag (name : List Char)
  /-- What follows is not text and tags. -/
  | unread
  deriving DecidableEq, Repr

/-- A tag that is being read. -/
structure Tag where
  closing : Bool
  name : List Char
  attributes : List (List Char × List Char)
  deriving DecidableEq, Repr

/-- A place in a tag, with the attribute that is being read there. -/
inductive TagState where
  | name
  | beforeName
  | attrName (n : List Char)
  | afterName (n : List Char)
  | beforeValue (n : List Char)
  | value (quote : Option Char) (n v : List Char)
  deriving DecidableEq, Repr

inductive State where
  /-- Text, of which some characters belong to a reference that has been read. -/
  | data (skip : Nat)
  | tagOpen
  | endTagOpen
  | tag (t : Tag) (place : TagState)
  | unread
  deriving DecidableEq, Repr

/-! ## Tags -/

def isSpace (c : Char) : Bool := c = ' ' ∨ c = '\t' ∨ c = '\n' ∨ c = '\x0c'

/-- NUL is replaced inside of tags. -/
def plain (c : Char) : Char := if c = '\x00' then '\uFFFD' else c

/-- The character of a name. -/
def fold (c : Char) : Char := plain c.toLower

/-- The elements whose contents are not read as markup. -/
def rawText : List (List Char) :=
  ["script", "style", "textarea", "title", "xmp", "iframe", "noembed", "noframes", "noscript",
    "plaintext"].map String.toList

/-- The first attribute of a name is the one that counts. -/
def Tag.add (refs : NamedRefs) (t : Tag) (n v : List Char) : Tag :=
  if n ∈ t.attributes.map Prod.fst then t
  else { t with attributes := t.attributes ++ [(n, expand refs v)] }

def Tag.emit (t : Tag) : List Token × State :=
  if t.closing then ([.endTag t.name], .data 0)
  else if t.name ∈ rawText then ([.startTag t.name t.attributes, .unread], .unread)
  else ([.startTag t.name t.attributes], .data 0)

/-- Also behind a quoted value or a slash, where the same characters count. -/
def beforeNameStep (t : Tag) (c : Char) : List Token × State :=
  if isSpace c ∨ c = '/' then ([], .tag t .beforeName)
  else if c = '>' then t.emit
  else ([], .tag t (.attrName [fold c]))

def tagStep (refs : NamedRefs) (t : Tag) (c : Char) : TagState → List Token × State
  | .name =>
      if isSpace c ∨ c = '/' then ([], .tag t .beforeName)
      else if c = '>' then t.emit
      else ([], .tag { t with name := t.name ++ [fold c] } .name)
  | .beforeName => beforeNameStep t c
  | .attrName n =>
      if isSpace c then ([], .tag t (.afterName n))
      else if c = '/' then ([], .tag (t.add refs n []) .beforeName)
      else if c = '>' then (t.add refs n []).emit
      else if c = '=' then ([], .tag t (.beforeValue n))
      else ([], .tag t (.attrName (n ++ [fold c])))
  | .afterName n =>
      if isSpace c then ([], .tag t (.afterName n))
      else if c = '=' then ([], .tag t (.beforeValue n))
      else beforeNameStep (t.add refs n []) c
  | .beforeValue n =>
      if isSpace c then ([], .tag t (.beforeValue n))
      else if c = '"' ∨ c = '\'' then ([], .tag t (.value (some c) n []))
      else if c = '>' then (t.add refs n []).emit
      else ([], .tag t (.value none n [plain c]))
  | .value (some quote) n v =>
      if c = quote then ([], .tag (t.add refs n v) .beforeName)
      else ([], .tag t (.value (some quote) n (v ++ [plain c])))
  | .value none n v =>
      if isSpace c then ([], .tag (t.add refs n v) .beforeName)
      else if c = '>' then (t.add refs n v).emit
      else ([], .tag t (.value none n (v ++ [plain c])))

/-! ## Text -/

/-- The character behind a `<` that makes markup of it. -/
def isOpening (c : Char) : Bool := c.isAlpha ∨ c = '/' ∨ c = '!' ∨ c = '?'

/-- NUL is left out. -/
def dataStep (refs : NamedRefs) (c : Char) (rest : List Char) : List Token × State :=
  if c = '<' then ([], .tagOpen)
  else if c = '&' then match reference refs false rest with
    | some (out, n) => (out.map .char, .data n)
    | none => ([.char c], .data 0)
  else if c = '\x00' then ([], .data 0)
  else ([.char c], .data 0)

def step (refs : NamedRefs) (c : Char) (rest : List Char) : State → List Token × State
  | .data 0 => dataStep refs c rest
  | .data (skip + 1) => ([], .data skip)
  | .tagOpen =>
      if c.isAlpha then ([], .tag ⟨false, [fold c], []⟩ .name)
      else if c = '/' then ([], .endTagOpen)
      else if c = '!' ∨ c = '?' then ([.unread], .unread)
      else (.char '<' :: (dataStep refs c rest).1, (dataStep refs c rest).2)
  | .endTagOpen =>
      if c.isAlpha then ([], .tag ⟨true, [fold c], []⟩ .name)
      else if c = '>' then ([], .data 0)
      else ([.unread], .unread)
  | .tag t place => tagStep refs t c place
  | .unread => ([], .unread)

/-- A tag that does not end is dropped. -/
def flush : State → List Token
  | .tagOpen => [.char '<']
  | .endTagOpen => [.char '<', .char '/']
  | _ => []

def run (refs : NamedRefs) : State → List Char → List Token
  | s, [] => flush s
  | s, c :: rest => (step refs c rest s).1 ++ run refs (step refs c rest s).2 rest

/-- Every line ends with LF. -/
def normalizeNewlines : List Char → List Char
  | [] => []
  | c :: s =>
      if c ≠ '\r' then c :: normalizeNewlines s
      else if s.head? = some '\n' then normalizeNewlines s
      else '\n' :: normalizeNewlines s

def tokens (refs : NamedRefs) (markup : List Char) : List Token :=
  run refs (.data 0) (normalizeNewlines markup)

variable {refs : NamedRefs} {c : Char} {s rest : List Char} {t : Tag} {ts : List Token}

/-! ## Newlines -/

/-- Normalising the newlines makes no text longer. -/
theorem length_normalizeNewlines (s : List Char) : (normalizeNewlines s).length ≤ s.length := by
  fun_induction normalizeNewlines s with
  | case1 => exact Nat.le_refl _
  | case2 c s _ ih => exact Nat.succ_le_succ ih
  | case3 c s _ _ ih => exact Nat.le_succ_of_le ih
  | case4 c s _ _ ih => exact Nat.succ_le_succ ih

/-- A text without line ends is as it was. -/
theorem normalizeNewlines_eq_self (h : '\n' ∉ normalizeNewlines s) : normalizeNewlines s = s := by
  fun_induction normalizeNewlines s with
  | case1 => rfl
  | case2 c s _ ih => rw [ih fun hmem => h (List.mem_cons_of_mem c hmem)]
  | case3 c s _ hnewline ih =>
      cases s with
      | nil => contradiction
      | cons d s =>
          obtain rfl : d = '\n' := Option.some.inj hnewline
          rw [normalizeNewlines, if_pos (by decide)] at h
          exact absurd List.mem_cons_self h
  | case4 c s _ _ ih => exact absurd List.mem_cons_self h

/-- A character that is no newline separates the texts before and after it. -/
theorem normalizeNewlines_append_cons {d : Char} (hlf : d ≠ '\n') (hcr : d ≠ '\r') :
    normalizeNewlines (s ++ d :: rest) = normalizeNewlines s ++ d :: normalizeNewlines rest := by
  induction s with
  | nil => rw [List.nil_append, normalizeNewlines, List.nil_append, normalizeNewlines, if_pos hcr]
  | cons c s ih =>
      have hhead : (s ++ d :: rest).head? = some '\n' ↔ s.head? = some '\n' := by
        cases s with
        | nil => simpa using hlf
        | cons e s => exact Iff.rfl
      rw [List.cons_append, normalizeNewlines, normalizeNewlines, ih]
      simp only [hhead]
      split_ifs <;> rfl

/-- A text without carriage returns stays as it is in front of another. -/
theorem normalizeNewlines_append {front : List Char} (h : '\r' ∉ front) :
    normalizeNewlines (front ++ s) = front ++ normalizeNewlines s := by
  induction front with
  | nil => rfl
  | cons c front ih =>
      rw [List.mem_cons, not_or] at h
      rw [List.cons_append, normalizeNewlines, if_pos (Ne.symm h.1), ih h.2, List.cons_append]

/-! ## Tags -/

/-- A text without NUL stays as it is in an attribute. -/
theorem map_plain_eq_self (h : '\x00' ∉ s) : s.map plain = s := by
  conv_rhs => rw [← List.map_id s]
  exact List.map_congr_left fun c hc => if_neg (ne_of_mem_of_not_mem hc h)

/-- Adding an attribute keeps those that are there. -/
theorem Tag.attributes_add (refs : NamedRefs) (t : Tag) (n v : List Char) :
    t.attributes <+: (t.add refs n v).attributes := by
  unfold Tag.add
  split
  · exact List.prefix_refl _
  · exact List.prefix_append _ _

/-- The attributes before one place of a tag are among those of the tag. -/
def Continues (t : Tag) (result : List Token × State) : Prop :=
  ∃ t' : Tag, t.attributes <+: t'.attributes ∧
    (result = t'.emit ∨ ∃ place, result = ([], .tag t' place))

/-- A tag that is emitted goes on with its attributes. -/
theorem Continues.emit : Continues t t.emit := ⟨t, List.prefix_refl _, .inl rfl⟩

/-- A tag that is still open goes on with its attributes. -/
theorem Continues.place {place : TagState} : Continues t ([], .tag t place) :=
  ⟨t, List.prefix_refl _, .inr ⟨place, rfl⟩⟩

/-- A tag goes on with its attributes when it goes on with more. -/
theorem Continues.add {n v : List Char} {result : List Token × State}
    (h : Continues (t.add refs n v) result) : Continues t result := by
  obtain ⟨t', hprefix, hresult⟩ := h
  exact ⟨t', (t.attributes_add refs n v).trans hprefix, hresult⟩

/-- Before an attribute's name the attributes read are kept. -/
theorem beforeNameStep_continues (t : Tag) (c : Char) : Continues t (beforeNameStep t c) := by
  unfold beforeNameStep
  split_ifs
  · exact .place
  · exact .emit
  · exact .place

/-- A step inside a tag keeps the attributes read. -/
theorem tagStep_continues (refs : NamedRefs) (t : Tag) (c : Char) (place : TagState) :
    Continues t (tagStep refs t c place) := by
  cases place with
  | name =>
      rw [tagStep]
      split_ifs
      · exact .place
      · exact .emit
      · exact ⟨{ t with name := t.name ++ [fold c] }, List.prefix_refl _, .inr ⟨.name, rfl⟩⟩
  | beforeName => exact beforeNameStep_continues t c
  | attrName n =>
      rw [tagStep]
      split_ifs
      · exact .place
      · exact .add .place
      · exact .add .emit
      · exact .place
      · exact .place
  | afterName n =>
      rw [tagStep]
      split_ifs
      · exact .place
      · exact .place
      · exact .add (beforeNameStep_continues _ c)
  | beforeValue n =>
      rw [tagStep]
      split_ifs
      · exact .place
      · exact .place
      · exact .add .emit
      · exact .place
  | value quote n v =>
      cases quote with
      | some quote =>
          rw [tagStep]
          split_ifs
          · exact .add .place
          · exact .place
      | none =>
          rw [tagStep]
          split_ifs
          · exact .add .place
          · exact .add .emit
          · exact .place

/-- The number of characters before the first tag. -/
def leading : List Token → Nat
  | .char _ :: ts => leading ts + 1
  | _ => 0

/-- Leading characters are counted before the rest. -/
theorem leading_map_char (s : List Char) (ts : List Token) :
    leading (s.map .char ++ ts) = s.length + leading ts := by
  induction s with
  | nil => rw [List.map_nil, List.nil_append, List.length_nil, Nat.zero_add]
  | cons c s ih =>
      rw [List.map_cons, List.cons_append, leading, ih, List.length_cons]
      omega

/-- A tag emitted has no text before it. -/
theorem Tag.leading_emit (t : Tag) (rest : List Token) : leading (t.emit.1 ++ rest) = 0 := by
  unfold Tag.emit
  split_ifs <;> rfl

/-- The tag emitted has the attributes collected. -/
theorem Tag.attributes_emit {rest : List Token} {name : List Char}
    {attributes : List (List Char × List Char)}
    (h : t.emit.1 ++ rest = .startTag name attributes :: ts) : attributes = t.attributes := by
  unfold Tag.emit at h
  split_ifs at h
  · cases h
  · cases h
    rfl
  · cases h
    rfl

/-- Within a tag no character comes out before the tag does. -/
theorem leading_run_tag (t : Tag) (place : TagState) (s : List Char) :
    leading (run refs (.tag t place) s) = 0 := by
  induction s generalizing t place with
  | nil => rfl
  | cons c s ih =>
      rw [run, step]
      obtain ⟨t', -, hemit | ⟨place', htag⟩⟩ := tagStep_continues refs t c place
      · rw [hemit]
        exact t'.leading_emit _
      · rw [htag]
        exact ih t' place'

/-- The attributes that have been read stay in the tag. -/
theorem run_tag_prefix {place : TagState} {name : List Char}
    {attributes : List (List Char × List Char)}
    (h : run refs (.tag t place) s = .startTag name attributes :: ts) :
    t.attributes <+: attributes := by
  induction s generalizing t place with
  | nil => contradiction
  | cons c s ih =>
      rw [run, step] at h
      obtain ⟨t', hprefix, hemit | ⟨place', htag⟩⟩ := tagStep_continues refs t c place
      · rw [hemit] at h
        rw [Tag.attributes_emit h]
        exact hprefix
      · rw [htag] at h
        exact hprefix.trans (ih h)

/-! ## Quoted values -/

section
variable {quote : Char} {n v : List Char}

/-- A quoted value is read up to its quote. -/
theorem run_value (h : quote ∉ s) :
    run refs (.tag t (.value (some quote) n v)) (s ++ quote :: rest) =
      run refs (.tag (t.add refs n (v ++ s.map plain)) .beforeName) rest := by
  induction s generalizing v with
  | nil =>
      rw [List.nil_append, run, step, tagStep, if_pos rfl, List.map_nil, List.append_nil]
      rfl
  | cons c s ih =>
      rw [List.mem_cons, not_or] at h
      rw [List.cons_append, run, step, tagStep, if_neg (Ne.symm h.1), List.nil_append, ih h.2,
        List.map_cons, List.append_assoc, List.singleton_append]

/-- A value whose quote never comes yields no token. -/
theorem run_value_end (h : quote ∉ s) : run refs (.tag t (.value (some quote) n v)) s = [] := by
  induction s generalizing v with
  | nil => rfl
  | cons c s ih =>
      rw [List.mem_cons, not_or] at h
      rw [run, step, tagStep, if_neg (Ne.symm h.1), List.nil_append, ih h.2]

/-- What comes before the first quote is not changed by text after it. -/
theorem takeWhile_append_quote (s rest : List Char) :
    (s ++ quote :: rest).takeWhile (· ≠ quote) = s.takeWhile (· ≠ quote) := by
  induction s with
  | nil => exact List.takeWhile_cons_of_neg (by simp)
  | cons c s ih => rw [List.cons_append, List.takeWhile_cons, List.takeWhile_cons, ih]

/-- The value ends at the first quote, whatever the rest of the tag is. -/
theorem run_value_prefix {name : List Char} {attributes : List (List Char × List Char)}
    (hnew : n ∉ t.attributes.map Prod.fst)
    (h : run refs (.tag t (.value (some quote) n v)) s = .startTag name attributes :: ts) :
    t.attributes ++ [(n, expand refs (v ++ (s.takeWhile (· ≠ quote)).map plain))] <+:
      attributes := by
  by_cases hmem : quote ∈ s
  · obtain ⟨front, rest, rfl, hfront⟩ := List.eq_append_cons_of_mem hmem
    have hwhole : front.takeWhile (· ≠ quote) = front :=
      List.takeWhile_eq_self_iff.mpr fun c hc =>
        decide_eq_true (ne_of_mem_of_not_mem hc hfront)
    rw [run_value hfront] at h
    have hprefix := run_tag_prefix h
    rw [Tag.add, if_neg hnew] at hprefix
    rwa [takeWhile_append_quote, hwhole]
  · rw [run_value_end hmem] at h
    contradiction

end

/-! ## Text -/

/-- A `<` opens markup somewhere in the text. -/
def opens : List Char → Bool
  | [] => false
  | c :: s => (c = '<' ∧ s.head?.any isOpening) ∨ opens s

/-- An ordinary character of text is a token of its own. -/
theorem run_data_cons (hless : c ≠ '<') (hampersand : c ≠ '&') (hnul : c ≠ '\x00') :
    run refs (.data 0) (c :: s) = .char c :: run refs (.data 0) s := by
  rw [run, step, dataStep, if_neg hless, if_neg hampersand, if_neg hnul]
  rfl

/-- A less-than sign that opens nothing is text. -/
theorem run_tagOpen_cons (h : ¬ isOpening c) :
    run refs .tagOpen (c :: s) = .char '<' :: run refs (.data 0) (c :: s) := by
  unfold isOpening at h
  simp only [decide_eq_true_eq, not_or] at h
  obtain ⟨halpha, hslash, hmark, hquestion⟩ := h
  rw [run, step, if_neg halpha, if_neg hslash, if_neg (not_or.mpr ⟨hmark, hquestion⟩), run, step]
  rfl

/-- Markup that is opened gives no characters, unless it is `</>`. -/
theorem leading_run_tagOpen (h : isOpening c) (hslash : c ≠ '/') :
    leading (run refs .tagOpen (c :: s)) = 0 := by
  unfold isOpening at h
  simp only [decide_eq_true_eq] at h
  rw [run, step]
  split_ifs with halpha hmark
  · exact leading_run_tag _ _ s
  · rfl
  · tauto

/-- After the start of an end tag no text follows at once. -/
theorem leading_run_endTagOpen (h : c ≠ '>') : leading (run refs .endTagOpen (c :: s)) = 0 := by
  rw [run, step]
  split_ifs
  · exact leading_run_tag _ _ s
  · rfl

/-- A text before a closing tag gives no more characters than it has, and fewer if
something opens in it; so does its rest from within what is opened. -/
theorem leading_run_text (hampersand : '&' ∉ s) (hc : c ≠ '>') :
    leading (run refs (.data 0) (s ++ '<' :: '/' :: c :: rest)) + (opens s).toNat ≤ s.length ∧
    leading (run refs .tagOpen (s ++ '<' :: '/' :: c :: rest)) + (opens ('<' :: s)).toNat ≤
      s.length + 1 ∧
    leading (run refs .endTagOpen (s ++ '<' :: '/' :: c :: rest)) ≤ s.length := by
  induction s with
  | nil =>
      have hclose : leading (run refs .endTagOpen (c :: rest)) = 0 := leading_run_endTagOpen hc
      refine ⟨hclose.le, ?_, (leading_run_endTagOpen (by decide)).le⟩
      rw [List.nil_append, run_tagOpen_cons (by decide)]
      exact Nat.succ_le_succ hclose.le
  | cons d s ih =>
      rw [List.mem_cons, not_or] at hampersand
      obtain ⟨hdata, htag, hend⟩ := ih hampersand.2
      rw [List.cons_append, List.length_cons]
      have hhere : leading (run refs (.data 0) (d :: (s ++ '<' :: '/' :: c :: rest))) +
          (opens (d :: s)).toNat ≤ s.length + 1 := by
        by_cases hless : d = '<'
        · subst hless
          exact htag
        · have hopens : opens (d :: s) = opens s := by simp [opens, hless]
          rw [hopens]
          by_cases hnul : d = '\x00'
          · subst hnul
            exact Nat.le_succ_of_le hdata
          · rw [run_data_cons hless (Ne.symm hampersand.1) hnul, leading]
            omega
      refine ⟨hhere, ?_, ?_⟩
      · by_cases hopening : isOpening d
        · have hopens : opens ('<' :: d :: s) = true := by simp [opens, hopening]
          rw [hopens, Bool.toNat_true]
          by_cases hslash : d = '/'
          · subst hslash
            exact Nat.succ_le_succ (Nat.le_succ_of_le hend)
          · rw [leading_run_tagOpen hopening hslash]
            omega
        · have hopens : opens ('<' :: d :: s) = opens (d :: s) := by simp [opens, hopening]
          rw [hopens, run_tagOpen_cons hopening, leading]
          omega
      · by_cases hclose : d = '>'
        · subst hclose
          exact Nat.le_succ_of_le ((Nat.le_add_right _ _).trans hdata)
        · rw [leading_run_endTagOpen hclose]
          exact Nat.zero_le _

/-- A text that opens nothing is read character by character. -/
theorem run_text (hopens : opens s = false) (hampersand : '&' ∉ s) (hnul : '\x00' ∉ s) :
    run refs (.data 0) (s ++ '<' :: rest) = s.map .char ++ run refs (.data 0) ('<' :: rest) := by
  induction s with
  | nil => rfl
  | cons d s ih =>
      rw [List.mem_cons, not_or] at hampersand hnul
      rw [opens, decide_eq_false_iff_not, not_or] at hopens
      have htail := ih (Bool.not_eq_true _ ▸ hopens.2) hampersand.2 hnul.2
      rw [List.map_cons, List.cons_append, List.cons_append, ← htail]
      by_cases hless : d = '<'
      · subst hless
        change run refs .tagOpen (s ++ '<' :: rest) = _
        cases s with
        | nil => exact run_tagOpen_cons (by decide)
        | cons e s => exact run_tagOpen_cons fun hopening => hopens.1 ⟨rfl, hopening⟩
      · exact run_data_cons hless (Ne.symm hampersand.1) (Ne.symm hnul.1)

/-- The text of an element comes out as it went in exactly if nothing opens in it. -/
theorem run_text_iff (hampersand : '&' ∉ s) (hnul : '\x00' ∉ s) :
    run refs (.data 0) (s ++ ("</a>".toList ++ rest)) = s.map .char ++ .endTag ['a'] :: ts ↔
      opens s = false ∧ run refs (.data 0) rest = ts := by
  have hstop : "</a>".toList ++ rest = '<' :: '/' :: 'a' :: '>' :: rest := rfl
  rw [hstop]
  constructor
  · intro h
    have hfew : leading (run refs (.data 0) (s ++ '<' :: '/' :: 'a' :: '>' :: rest)) +
        (opens s).toNat ≤ s.length := (leading_run_text hampersand (by decide)).1
    have hopens : opens s = false := by
      rw [h, leading_map_char] at hfew
      exact Bool.toNat_eq_zero.mp (by omega)
    rw [run_text hopens hampersand hnul] at h
    exact ⟨hopens, (List.cons.inj (List.append_cancel_left h)).2⟩
  · rintro ⟨hopens, rfl⟩
    exact run_text hopens hampersand hnul

/-- A `<` before a blank is text, one before a letter opens a tag. -/
example : tokens refs "1 < 2<br class=x>".toList =
    [.char '1', .char ' ', .char '<', .char ' ', .char '2',
      .startTag "br".toList [("class".toList, "x".toList)]] := rfl

end Text.Html
