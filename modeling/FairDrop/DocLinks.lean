import FairDrop.Media.Models
import FairDrop.Text.Html
import FairDrop.Text.Url
import FairDrop.User.Verification
import Mathlib.Data.List.Forall2

/-!
# FairDrop.DocLinks

The documents of a verification request in the admin panel: a link for each key
of `docs_url` (`docs_link_formatter` of `core/admin/admin.py`), and the file that
following it finds (`get_secure_file_path` of `media/service.py`).

The keys are the user's, and stand in the markup as they are.  What a browser
reads there is what the panel means exactly for keys without the signs that
markup and queries are made of (`linksIntact_iff`).
-/

namespace FairDrop

open RowStore Text

/-! ## The formatter -/

/-- What a column shows: a text, or markup that is not escaped. -/
inductive Cell where
  | text (s : List Char)
  | markup (s : List Char)
  deriving DecidableEq, Repr

def viewPath (targetType : String) (id : Uuid) : List Char :=
  "/api/v1/media/view/".toList ++ targetType.toList ++ '/' :: uuidText id

def docHref (id : Uuid) (docType : List Char) : List Char :=
  viewPath "verification_doc" id ++ "?doc_key=".toList ++ docType

/-- The link of one key. -/
def docLink (id : Uuid) (docType : List Char) : List Char :=
  "<a href=\"".toList ++ docHref id docType ++ "\" target=\"_blank\">".toList ++ docType ++
    "</a>".toList

def docsLinkFormatter (r : VerificationRequest) : Cell :=
  match r.docsUrl with
  | none | some [] => .text "No docs".toList
  | some docs => .markup (", ".toList.intercalate (docs.map fun doc => docLink r.id doc.1.toList))

/-! ## The file of a link -/

structure FileDb where
  requests : Table VerificationRequest
  images : Table ProductImage

def getSecureFilePath (d : FileDb) (targetType : String) (targetId : Uuid)
    (docKey : Option String) : Option String :=
  if targetType = "verification_doc" then do
    let vReq ← d.requests.get targetId
    let docs ← vReq.docsUrl
    let docKey ← docKey
    if docs = [] ∨ docKey = "" then none
    else
      let docVal ← docs.lookup docKey
      if docVal = "" then none else some docVal
  else if targetType = "product_image" then
    (d.images.get targetId).map ProductImage.filePath
  else none

/-! ## Links as they are meant -/

/-- The documents of a request. -/
def VerificationRequest.docs (r : VerificationRequest) : List (String × String) :=
  r.docsUrl.getD []

/-- Following `href` asks for the document `key` of the request. -/
def Asks (id : Uuid) (key href : List Char) : Prop :=
  ∃ query, Url.readReference href = some (viewPath "verification_doc" id, query) ∧
    Url.queryParam "doc_key".toList query = some key

/-- Following `href` finds what is stored under `key`. -/
def Leads (d : FileDb) (r : VerificationRequest) (key : String) (href : List Char) : Prop :=
  Asks r.id key.toList href ∧
    getSecureFilePath d "verification_doc" r.id (some key) = r.docs.lookup key

def linkTag (href : List Char) : Html.Token :=
  .startTag ['a'] [("href".toList, href), ("target".toList, "_blank".toList)]

/-- An element with the text `key` that refers to `href`. -/
def anchor (href key : List Char) : List Html.Token :=
  linkTag href :: key.map .char ++ [.endTag ['a']]

/-- The tokens of links with these texts and references. -/
def linksTokens (keys : List String) (hrefs : List (List Char)) : List Html.Token :=
  [.char ',', .char ' '].intercalate
    (List.zipWith (fun key href => anchor href key.toList) keys hrefs)

/-- The markup of the column is one link for each key, with the key as its text and
a reference that leads to its document. -/
def LinksIntact (refs : Html.NamedRefs) (d : FileDb) (r : VerificationRequest) : Prop :=
  ∀ markup, docsLinkFormatter r = .markup markup →
    ∃ hrefs, List.Forall₂ (Leads d r) (r.docs.map Prod.fst) hrefs ∧
      Html.tokens refs markup = linksTokens (r.docs.map Prod.fst) hrefs

/-- What ends a value, or is read as something else, wherever it stands. -/
def signs : List Char := ['"', '&', '#', '+', '\t', '\n', '\r', '\x00']

/-- A key that means nothing but itself, neither in markup nor in a query. -/
structure Safe (key : List Char) : Prop where
  plain : ∀ c ∈ signs, c ∉ key
  escapes : Url.hasEscape key = false
  opens : Html.opens key = false
  stop : key.rdropWhile Url.strippable = key

/-! ## Reading one link -/

section
variable {refs : Html.NamedRefs} {id : Uuid} {key rest href : List Char} {ts : List Html.Token}

/-- The route's path is made of path characters. -/
theorem isPathChar_viewPath {c : Char} (h : c ∈ viewPath "verification_doc" id) :
    Url.isPathChar c := by
  unfold viewPath at h
  rw [List.mem_append, List.mem_append, List.mem_cons] at h
  rcases h with (hroot | htype) | rfl | hid
  · exact List.all_eq_true.mp rfl c hroot
  · exact List.all_eq_true.mp rfl c htype
  · decide
  · rcases mem_uuidText hid with halphanum | rfl
    · simp [Url.isPathChar, halphanum]
    · decide

/-- The route's path needs no resolving. -/
theorem plainPath_viewPath (id : Uuid) : Url.plainPath (viewPath "verification_doc" id) := by
  refine decide_eq_true ⟨?_, rfl, ?_⟩
  · exact List.all_eq_true.mpr fun c hc => isPathChar_viewPath hc
  · change some 'a' ≠ some '/'
    decide

/-- The parameter's name stands for itself in a query. -/
theorem stands_docKey : ∀ c ∈ "doc_key".toList, Url.stands c := List.all_eq_true.mp rfl

/-- Before the key there is nothing but letters and signs of a path. -/
theorem mem_docHref {c : Char} (hpath : ¬ Url.isPathChar c)
    (hname : c ∉ "?doc_key=".toList) : c ∈ docHref id key ↔ c ∈ key := by
  unfold docHref
  rw [List.mem_append, List.mem_append]
  constructor
  · rintro ((h | h) | h)
    · exact absurd (isPathChar_viewPath h) hpath
    · exact absurd h hname
    · exact h
  · exact .inr

/-- A character outside the path and the parameter's name is not in the link before the key. -/
theorem not_mem_docHref_nil {c : Char} (hpath : ¬ Url.isPathChar c)
    (hname : c ∉ "?doc_key=".toList) : c ∉ docHref id [] :=
  mt (mem_docHref hpath hname).mp List.not_mem_nil

/-- The browser reads the link as the route's path and a query with the key cleaned. -/
theorem readReference_docHref (id : Uuid) (key : List Char) :
    Url.readReference (docHref id key) = some (viewPath "verification_doc" id,
      Url.queryEncode ("doc_key".toList ++ '=' :: Url.cleaned key)) := by
  have hshape : docHref id key =
      viewPath "verification_doc" id ++ '?' :: ("doc_key".toList ++ '=' :: key) := by
    unfold docHref
    rw [List.append_assoc]
    rfl
  rw [hshape, Url.readReference_eq (plainPath_viewPath id), Url.cleaned_name stands_docKey]

/-- The key stands unencoded at the end of the link. -/
theorem docHref_eq_append (id : Uuid) (key : List Char) : docHref id key = docHref id [] ++ key := by
  unfold docHref
  rw [List.append_nil]

/-- Character references in the link are those in the key. -/
theorem expand_docHref (id : Uuid) (key : List Char) :
    Html.expand refs ((docHref id key).map Html.plain) =
      docHref id (Html.expand refs (key.map Html.plain)) := by
  have hnul : '\x00' ∉ docHref id [] := not_mem_docHref_nil (by decide) (by decide)
  have hampersand : '&' ∉ docHref id [] := not_mem_docHref_nil (by decide) (by decide)
  rw [docHref_eq_append, List.map_append, Html.map_plain_eq_self hnul,
    Html.expand_append hampersand, ← docHref_eq_append]

/-- The pieces of one link, up to the text that follows it. -/
theorem docLink_append (id : Uuid) (key rest : List Char) :
    docLink id key ++ rest = "<a href=\"".toList ++ (docHref id key ++
      '"' :: (" target=\"_blank\">".toList ++ (key ++ ("</a>".toList ++ rest)))) := by
  have hquote : "\" target=\"_blank\">".toList = '"' :: " target=\"_blank\">".toList := rfl
  unfold docLink
  rw [hquote]
  -- only the appends are rearranged: the pieces stay closed
  generalize docHref id key = href
  generalize "<a href=\"".toList = start
  generalize " target=\"_blank\">".toList = target
  generalize "</a>".toList = stop
  simp only [List.append_assoc, List.cons_append]

/-- Newlines are normalised in the key alone. -/
theorem normalizeNewlines_docLink (id : Uuid) (key rest : List Char) :
    Html.normalizeNewlines (docLink id key ++ rest) =
      docLink id (Html.normalizeNewlines key) ++ Html.normalizeNewlines rest := by
  have hhref : '\r' ∉ docHref id [] := not_mem_docHref_nil (by decide) (by decide)
  have hstop : ∀ s, "</a>".toList ++ s = '<' :: ("/a>".toList ++ s) := fun _ => rfl
  rw [docLink_append, docLink_append, docHref_eq_append id key,
    docHref_eq_append id (Html.normalizeNewlines key), List.append_assoc, List.append_assoc,
    Html.normalizeNewlines_append (by decide), Html.normalizeNewlines_append hhref,
    Html.normalizeNewlines_append_cons (by decide) (by decide),
    Html.normalizeNewlines_append (by decide), hstop,
    Html.normalizeNewlines_append_cons (by decide) (by decide),
    Html.normalizeNewlines_append (by decide), hstop]

/-- The tokenizer has read the tag up to the attribute's value. -/
theorem run_link_start (refs : Html.NamedRefs) (s : List Char) :
    Html.run refs (.data 0) ("<a href=\"".toList ++ s) =
      Html.run refs (.tag ⟨false, ['a'], []⟩ (.value (some '"') "href".toList [])) s := rfl

/-- From the end of the attribute's value the tokenizer is back in text. -/
theorem run_link_end (refs : Html.NamedRefs) (v s : List Char) :
    Html.run refs (.tag ⟨false, ['a'], [("href".toList, v)]⟩ .beforeName)
      (" target=\"_blank\">".toList ++ s) =
      linkTag v :: Html.run refs (.data 0) s := by
  have hadd : (⟨false, ['a'], [("href".toList, v)]⟩ : Html.Tag).add refs "target".toList
      "_blank".toList = ⟨false, ['a'], [("href".toList, v), ("target".toList, "_blank".toList)]⟩ :=
    rfl
  have hrun : Html.run refs (.tag ⟨false, ['a'], [("href".toList, v)]⟩ .beforeName)
      (" target=\"_blank\">".toList ++ s) =
      ((⟨false, ['a'], [("href".toList, v)]⟩ : Html.Tag).add refs "target".toList
        "_blank".toList).emit.1 ++
      Html.run refs ((⟨false, ['a'], [("href".toList, v)]⟩ : Html.Tag).add refs "target".toList
        "_blank".toList).emit.2 s := rfl
  rw [hrun, hadd]
  rfl

/-- The tokenizer reaches the link's address as the value of the attribute. -/
theorem run_docLink (refs : Html.NamedRefs) (id : Uuid) (key rest : List Char) :
    Html.run refs (.data 0) (docLink id key ++ rest) =
      Html.run refs (.tag ⟨false, ['a'], []⟩ (.value (some '"') "href".toList []))
        (docHref id key ++ '"' :: (" target=\"_blank\">".toList ++
          (key ++ ("</a>".toList ++ rest)))) := by
  rw [docLink_append, run_link_start]

/-- A key without quotes leaves the tag as it is meant. -/
theorem run_docLink_of_no_quote (hquote : '"' ∉ key) :
    Html.run refs (.data 0) (docLink id key ++ rest) =
      linkTag (docHref id (Html.expand refs (key.map Html.plain))) ::
        Html.run refs (.data 0) (key ++ ("</a>".toList ++ rest)) := by
  have hfront : '"' ∉ docHref id key :=
    mt (mem_docHref (by decide) (by decide)).mp hquote
  rw [run_docLink, Html.run_value hfront, List.nil_append, ← expand_docHref, ← run_link_end]
  rfl

/-- A quote in the key ends the reference. -/
theorem href_of_run (h : Html.run refs (.data 0) (docLink id key ++ rest) = linkTag href :: ts) :
    href = docHref id (Html.expand refs ((key.takeWhile (· ≠ '"')).map Html.plain)) := by
  have hquote : '"' ∉ docHref id [] := not_mem_docHref_nil (by decide) (by decide)
  have hfront : ∀ c ∈ docHref id [], decide (c ≠ '"') = true :=
    fun c hc => decide_eq_true (ne_of_mem_of_not_mem hc hquote)
  rw [run_docLink] at h
  have hprefix := Html.run_value_prefix List.not_mem_nil h
  rw [List.nil_append, List.nil_append, Html.takeWhile_append_quote, docHref_eq_append,
    List.takeWhile_append_of_pos hfront, ← docHref_eq_append, expand_docHref] at hprefix
  exact (Prod.mk.inj (List.cons_prefix_cons.mp hprefix).1).2.symm

/-! ## One link -/

/-- A reference that asks for a key has all of the key in it. -/
theorem Asks.value {v : List Char} (h : Asks id key (docHref id v))
    (hlength : v.length ≤ key.length) : Url.cleaned v = v ∧ '&' ∉ v ∧ Url.hasEscape v = false ∧
      v.map Url.plusToSpace = key := by
  obtain ⟨query, hread, hparam⟩ := h
  rw [readReference_docHref] at hread
  obtain rfl := (Prod.mk.inj (Option.some.inj hread)).2
  have hclean := Url.cleaned_sublist v
  obtain ⟨hampersand, hescape⟩ :=
    Url.length_queryParam stands_docKey hparam (hclean.length_le.trans hlength)
  rw [Url.queryParam_eq stands_docKey hampersand hescape, Option.some.injEq] at hparam
  have hkey := congrArg List.length hparam
  rw [List.length_map] at hkey
  have hsame : Url.cleaned v = v := hclean.eq_of_length_le (by omega)
  rw [hsame] at hampersand hescape hparam
  exact ⟨hsame, hampersand, hescape, hparam⟩

/-- A key that is what its reference asks for has lost nothing on its way. -/
theorem plain_of_asks (h : Asks id key (docHref id (Html.expand refs
    (((Html.normalizeNewlines key).takeWhile (· ≠ '"')).map Html.plain)))) :
    Html.normalizeNewlines key = key ∧ (∀ c ∈ signs, c ∉ key) ∧ Url.hasEscape key = false ∧
      key.rdropWhile Url.strippable = key := by
  -- no stage makes the key longer
  have hn := Html.length_normalizeNewlines key
  generalize hnormal : Html.normalizeNewlines key = n at *
  have hw := (List.takeWhile_prefix (l := n) (· ≠ '"')).length_le
  have hv := Html.length_expand refs ((n.takeWhile (· ≠ '"')).map Html.plain)
  generalize hexpand : Html.expand refs ((n.takeWhile (· ≠ '"')).map Html.plain) = v at *
  rw [List.length_map] at hv
  obtain ⟨hclean, hampersand, hescape, hvalue⟩ := h.value (by omega)
  have hkey := congrArg List.length hvalue
  rw [List.length_map] at hkey
  -- so none makes it shorter
  have hwhole : n.takeWhile (· ≠ '"') = n :=
    (List.takeWhile_prefix _).eq_of_length_le (by omega)
  have hplain : v = n.map Html.plain := by
    rw [hwhole] at hexpand
    rw [← hexpand]
    refine Html.expand_eq_self ?_
    rw [hexpand, List.length_map]
    omega
  obtain ⟨hchars, hstop⟩ := Url.cleaned_eq_self_iff.mp hclean
  have hnewline : '\n' ∉ n := by
    intro hmem
    have hv : '\n' ∈ v := hplain ▸ List.mem_map.mpr ⟨'\n', hmem, by decide⟩
    exact (hchars _ hv).2 (by decide)
  have hsame : n = key := by
    rw [← hnormal] at hnewline ⊢
    exact Html.normalizeNewlines_eq_self hnewline
  subst hsame
  rw [hplain, List.map_map] at hvalue
  have hback : ∀ c ∈ n, Url.plusToSpace (Html.plain c) = c :=
    List.map_inj_left.mp (hvalue.trans (List.map_id n).symm)
  have hnul : '\x00' ∉ n := fun hmem => absurd (hback _ hmem) (by decide)
  rw [Html.map_plain_eq_self hnul] at hplain
  subst hplain
  refine ⟨rfl, fun c hsign hc => ?_, hescape, hstop⟩
  simp only [signs, List.mem_cons, List.not_mem_nil, or_false] at hsign
  rcases hsign with rfl | rfl | rfl | rfl | rfl | rfl | rfl | rfl
  · rw [← hwhole] at hc
    exact absurd (List.mem_takeWhile_imp hc) (by decide)
  · exact hampersand hc
  · exact (hchars _ hc).1 rfl
  · exact absurd (hback _ hc) (by decide)
  · exact (hchars _ hc).2 (by decide)
  · exact (hchars _ hc).2 (by decide)
  · exact (hchars _ hc).2 (by decide)
  · exact hnul hc

/-- The tokens of an anchor, followed by others. -/
theorem anchor_append (href key : List Char) (ts : List Html.Token) :
    anchor href key ++ ts = linkTag href :: (key.map .char ++ .endTag ['a'] :: ts) := by
  rw [anchor, List.append_assoc]
  rfl

/-- A link that is read as it is meant has a safe key. -/
theorem safe_of_run (hasks : Asks id key href)
    (hrun : Html.run refs (.data 0) (docLink id (Html.normalizeNewlines key) ++ rest) =
      anchor href key ++ ts) : Safe key ∧ Html.run refs (.data 0) rest = ts := by
  rw [anchor_append] at hrun
  rw [href_of_run hrun] at hasks
  obtain ⟨hnormal, hplain, hescapes, hstop⟩ := plain_of_asks hasks
  rw [hnormal, run_docLink_of_no_quote (hplain '"' (by decide))] at hrun
  obtain ⟨hopens, hrest⟩ :=
    (Html.run_text_iff (hplain '&' (by decide)) (hplain '\x00' (by decide))).mp
      (List.cons.inj hrun).2
  exact ⟨⟨hplain, hescapes, hopens, hstop⟩, hrest⟩

/-- The link of a safe key asks for that key. -/
theorem Safe.asks (h : Safe key) (id : Uuid) : Asks id key (docHref id key) := by
  have hclean : Url.cleaned key = key := by
    refine Url.cleaned_eq_self_iff.mpr ⟨fun c hc => ⟨?_, fun hremovable => ?_⟩, h.stop⟩
    · rintro rfl
      exact h.plain '#' (by decide) hc
    · unfold Url.removable at hremovable
      simp only [decide_eq_true_eq] at hremovable
      rcases hremovable with rfl | rfl | rfl
      · exact h.plain '\t' (by decide) hc
      · exact h.plain '\n' (by decide) hc
      · exact h.plain '\r' (by decide) hc
  have hplus : key.map Url.plusToSpace = key := by
    conv_rhs => rw [← List.map_id key]
    exact List.map_congr_left fun c hc =>
      if_neg (ne_of_mem_of_not_mem hc (h.plain '+' (by decide)))
  refine ⟨_, readReference_docHref id key, ?_⟩
  rw [hclean, Url.queryParam_eq stands_docKey (h.plain '&' (by decide)) h.escapes, hplus]

/-- A safe key makes the link that is meant. -/
theorem Safe.run (h : Safe key) (refs : Html.NamedRefs) (id : Uuid) (rest : List Char) :
    Html.run refs (.data 0) (docLink id (Html.normalizeNewlines key) ++ rest) =
      anchor (docHref id key) key ++ Html.run refs (.data 0) rest := by
  have hnormal : Html.normalizeNewlines (key ++ []) = key ++ [] :=
    Html.normalizeNewlines_append (h.plain '\r' (by decide))
  rw [List.append_nil] at hnormal
  have hampersand := h.plain '&' (by decide)
  have hnul := h.plain '\x00' (by decide)
  rw [hnormal, run_docLink_of_no_quote (h.plain '"' (by decide)), Html.map_plain_eq_self hnul,
    Html.expand_plain hampersand, anchor_append,
    (Html.run_text_iff hampersand hnul).mpr ⟨h.opens, rfl⟩]

end

/-! ## All links -/

section
variable {refs : Html.NamedRefs} {id : Uuid} {keys : List String} {hrefs : List (List Char)}

/-- The markup of a column. -/
def linksMarkup (id : Uuid) (keys : List String) : List Char :=
  ", ".toList.intercalate (keys.map fun key => docLink id key.toList)

/-- The comma between two links is two characters of text. -/
theorem run_separator (refs : Html.NamedRefs) (s : List Char) :
    Html.run refs (.data 0) (Html.normalizeNewlines (", ".toList ++ s)) =
      [.char ',', .char ' '] ++ Html.run refs (.data 0) (Html.normalizeNewlines s) := rfl

/-- The tokens of a list of links are those of the first link and then of the others. -/
theorem tokens_cons (refs : Html.NamedRefs) (id : Uuid) (key key' : String) (keys : List String) :
    Html.tokens refs (linksMarkup id (key :: key' :: keys)) =
      Html.run refs (.data 0) (docLink id (Html.normalizeNewlines key.toList) ++
        Html.normalizeNewlines (", ".toList ++ linksMarkup id (key' :: keys))) := by
  rw [Html.tokens, ← normalizeNewlines_docLink, linksMarkup, List.map_cons, List.map_cons,
    List.intercalate_cons_cons, List.append_assoc]
  rfl

/-- The tokens of a single link. -/
theorem tokens_singleton (refs : Html.NamedRefs) (id : Uuid) (key : String) :
    Html.tokens refs (linksMarkup id [key]) =
      Html.run refs (.data 0) (docLink id (Html.normalizeNewlines key.toList) ++ []) := by
  have hnormal := normalizeNewlines_docLink id key.toList []
  rw [Html.normalizeNewlines, List.append_nil] at hnormal
  rw [Html.tokens, linksMarkup, List.map_singleton, List.intercalate_singleton, hnormal]

/-- What a list of links ought to read as, one anchor at a time. -/
theorem linksTokens_cons (key key' : String) (keys : List String) (href href' : List Char)
    (hrefs : List (List Char)) : linksTokens (key :: key' :: keys) (href :: href' :: hrefs) =
      anchor href key.toList ++
        ([.char ',', .char ' '] ++ linksTokens (key' :: keys) (href' :: hrefs)) := by
  rw [linksTokens, List.zipWith_cons_cons, List.zipWith_cons_cons, List.intercalate_cons_cons,
    List.append_assoc]
  rfl

/-- What a single link ought to read as. -/
theorem linksTokens_singleton (key : String) (href : List Char) :
    linksTokens [key] [href] = anchor href key.toList ++ [] := by
  rw [linksTokens, List.zipWith_cons_cons, List.zipWith_nil_left, List.intercalate_singleton,
    List.append_nil]

/-- Links that are read as they are meant have safe keys, each of them. -/
theorem safe_of_tokens (hasks : List.Forall₂ (fun key href => Asks id key.toList href) keys hrefs)
    (htokens : Html.tokens refs (linksMarkup id keys) = linksTokens keys hrefs) :
    ∀ key ∈ keys, Safe key.toList := by
  induction hasks with
  | nil => exact fun key hkey => absurd hkey List.not_mem_nil
  | cons hask hasks ih =>
      cases hasks with
      | nil =>
          rw [tokens_singleton, linksTokens_singleton] at htokens
          exact List.forall_mem_singleton.mpr (safe_of_run hask htokens).1
      | cons hask' hasks =>
          rw [tokens_cons, linksTokens_cons] at htokens
          obtain ⟨hsafe, hrest⟩ := safe_of_run hask htokens
          rw [run_separator] at hrest
          exact List.forall_mem_cons.mpr ⟨hsafe, ih (List.append_cancel_left hrest)⟩

/-- Safe keys make the links that are meant. -/
theorem tokens_of_safe (refs : Html.NamedRefs) (id : Uuid) (h : ∀ key ∈ keys, Safe key.toList)
    (hne : keys ≠ []) : Html.tokens refs (linksMarkup id keys) =
      linksTokens keys (keys.map fun key => docHref id key.toList) := by
  induction keys with
  | nil => contradiction
  | cons key keys ih =>
      obtain ⟨hsafe, htail⟩ := List.forall_mem_cons.mp h
      cases keys with
      | nil =>
          rw [tokens_singleton, List.map_singleton, linksTokens_singleton, hsafe.run]
          rfl
      | cons key' keys =>
          have hrest := ih htail (List.cons_ne_nil key' keys)
          rw [Html.tokens] at hrest
          rw [tokens_cons, hsafe.run, run_separator, hrest]
          exact (linksTokens_cons key key' keys _ _ _).symm

end

/-! ## The documents -/

section
variable {refs : Html.NamedRefs} {d : FileDb} {r : VerificationRequest}

/-- The formatter's result: a remark when there are no documents, else one link for each. -/
theorem docsLinkFormatter_eq (r : VerificationRequest) : docsLinkFormatter r =
    if r.docs = [] then .text "No docs".toList
    else .markup (linksMarkup r.id (r.docs.map Prod.fst)) := by
  unfold docsLinkFormatter VerificationRequest.docs linksMarkup
  cases hdocs : r.docsUrl with
  | none => rfl
  | some docs =>
      cases docs with
      | nil => rfl
      | cons doc docs =>
          rw [Option.getD_some, if_neg (List.cons_ne_nil doc docs), List.map_map]
          rfl

/-- A document is found under a key that is not empty, if it is not empty itself. -/
theorem getSecureFilePath_eq_iff (hr : d.requests.get r.id = some r) {key : String}
    (hkey : key ∈ r.docs.map Prod.fst) :
    getSecureFilePath d "verification_doc" r.id (some key) = r.docs.lookup key ↔
      key ≠ "" ∧ r.docs.lookup key ≠ some "" := by
  obtain ⟨doc, hdoc, rfl⟩ := List.mem_map.mp hkey
  have hsome : (r.docs.lookup doc.1).isSome := by
    rw [List.lookup_isSome_iff]
    exact ⟨doc, hdoc, BEq.rfl⟩
  obtain ⟨value, hvalue⟩ := Option.isSome_iff_exists.mp hsome
  have hne : r.docs ≠ [] := List.ne_nil_of_mem hdoc
  have hdocs : r.docsUrl = some r.docs := by
    unfold VerificationRequest.docs at hne ⊢
    cases hcases : r.docsUrl with
    | none => simp [hcases] at hne
    | some docs => rfl
  have hfile : getSecureFilePath d "verification_doc" r.id (some doc.1) =
      if doc.1 = "" then none else if value = "" then none else some value := by
    unfold getSecureFilePath
    rw [if_pos rfl, hr]
    simp [hdocs, hne, hvalue]
  rw [hfile, hvalue]
  split_ifs with hkey hempty
  · simp [hkey]
  · simp [hempty]
  · simp [hkey, hempty]

/-- Intact links have safe keys that name a stored document. -/
theorem LinksIntact.safe (h : LinksIntact refs d r) (hr : d.requests.get r.id = some r) :
    ∀ key ∈ r.docs.map Prod.fst, Safe key.toList ∧ key ≠ "" ∧ r.docs.lookup key ≠ some "" := by
  intro key hkey
  have hne : r.docs ≠ [] := fun hempty => by simp [hempty] at hkey
  have hmarkup := docsLinkFormatter_eq r
  rw [if_neg hne] at hmarkup
  obtain ⟨hrefs, hleads, htokens⟩ := h _ hmarkup
  obtain ⟨hfiles, hasks⟩ := (List.forall₂_and_left _ _).mp (hleads.imp fun _ _ => And.symm)
  exact ⟨safe_of_tokens hasks htokens key hkey,
    (getSecureFilePath_eq_iff hr hkey).mp (hfiles key hkey)⟩

/-- Safe keys that name stored documents have intact links. -/
theorem linksIntact_of_safe (refs : Html.NamedRefs) (hr : d.requests.get r.id = some r)
    (h : ∀ key ∈ r.docs.map Prod.fst,
      Safe key.toList ∧ key ≠ "" ∧ r.docs.lookup key ≠ some "") : LinksIntact refs d r := by
  intro markup hmarkup
  rw [docsLinkFormatter_eq] at hmarkup
  split at hmarkup
  · contradiction
  · next hne =>
      obtain rfl := Cell.markup.inj hmarkup
      refine ⟨(r.docs.map Prod.fst).map fun key => docHref r.id key.toList, ?_, ?_⟩
      · rw [List.forall₂_map_right_iff, List.forall₂_same]
        intro key hkey
        obtain ⟨hsafe, hfile⟩ := h key hkey
        exact ⟨hsafe.asks r.id, (getSecureFilePath_eq_iff hr hkey).mpr hfile⟩
      · exact tokens_of_safe refs r.id (fun key hkey => (h key hkey).1) (by simpa using hne)

/-- **The links of the documents are intact** exactly if each key is safe, and it and
its document are not empty. -/
theorem linksIntact_iff (refs : Html.NamedRefs) (hr : d.requests.get r.id = some r) :
    LinksIntact refs d r ↔ ∀ key ∈ r.docs.map Prod.fst,
      Safe key.toList ∧ key ≠ "" ∧ r.docs.lookup key ≠ some "" :=
  ⟨fun h => h.safe hr, linksIntact_of_safe refs hr⟩

end

/-! ## A request for the role of a seller -/

/-- Some names that stand for signs of markup. -/
def signRefs : Html.NamedRefs :=
  ⟨[("amp;".toList, ['&']), ("amp".toList, ['&']), ("lt;".toList, ['<']), ("lt".toList, ['<']),
    ("gt;".toList, ['>']), ("gt".toList, ['>']), ("quot;".toList, ['"']),
    ("quot".toList, ['"'])], by decide⟩

def sellerRequest (docType : String) : VerificationRequest where
  id := 7
  userId := 1
  targetRole := .seller
  status := .pending
  docsUrl := some [(docType, "docs/passport.pdf")]
  adminFeedback := none
  createdAt := 0
  updatedAt := 0

def sellerFiles (docType : String) : FileDb :=
  ⟨⟨[sellerRequest docType], List.nodup_singleton _⟩, .empty⟩

/-- A plain document type is a safe key. -/
theorem safe_id_card : Safe "id_card".toList where
  plain := by
    have hall : signs.all (fun c => decide (c ∉ "id_card".toList)) = true := by decide
    exact fun c hc => of_decide_eq_true (List.all_eq_true.mp hall c hc)
  escapes := rfl
  opens := rfl
  stop := by decide

/-- The links of a request with a plain document type are intact. -/
theorem linksIntact_id_card : (sellerFiles "id_card").requests.get 7 = some (sellerRequest "id_card") ∧
    LinksIntact signRefs (sellerFiles "id_card") (sellerRequest "id_card") :=
  ⟨rfl, (linksIntact_iff signRefs rfl).mpr (List.forall_mem_singleton.mpr
    ⟨safe_id_card, by decide, by decide⟩)⟩

/-- A key that is markup itself. -/
theorem not_linksIntact : ¬ LinksIntact signRefs (sellerFiles "<script src=//evil></script>")
    (sellerRequest "<script src=//evil></script>") := by
  intro h
  have hsafe := (h.safe rfl _ List.mem_cons_self).1
  exact absurd hsafe.opens (by decide)

end FairDrop
