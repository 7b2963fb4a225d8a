import FairDrop.Media.Service
import FairDrop.Text.Segments

/-!
# FairDrop.Media.Normalizing

The key that `generate_presigned_get_url` signs is a normal form: slashes and
names of buckets in front of a key make no difference
(`presignedGetKey_canonical`).
-/

namespace FairDrop

open Text

/-- The names that are taken off with a slash behind them; the empty one stands
for a slash alone. -/
abbrev strippedNames (bucket : String) : List (List Char) := [] :: bucketCandidates bucket

/-! ## One round -/

/-- One pass of `for b in bucket_candidates`. -/
def stripCandidate (x : List Char × Bool) (b : List Char) : List Char × Bool :=
  match stripBucket b x.1 with
  | some rest => (rest, true)
  | none => x

/-- A round strips the leading slashes and then each of the bucket's names once. -/
theorem stripRound_eq_foldl (candidates : List (List Char)) (key : List Char) :
    stripRound candidates key = candidates.foldl stripCandidate (lstrip '/' key, false) := rfl

section
variable {candidates names : List (List Char)} {b key rest : List Char}

/-- A name that is stripped was there with its slash. -/
theorem stripBucket_eq_some (h : stripBucket b key = some rest) : key = b ++ '/' :: rest := by
  unfold stripBucket at h
  split at h
  · next hprefix =>
      obtain ⟨t, rfl⟩ := hprefix
      have hlength : b.length + 1 = (b ++ ['/']).length := by simp
      rw [hlength, List.drop_left] at h
      rw [← Option.some.inj h, List.append_assoc]
      rfl
  · contradiction

/-- A name is left alone when the key does not start with it and a slash. -/
theorem stripBucket_eq_none : stripBucket b key = none ↔ ¬ b ++ ['/'] <+: key := by
  simp [stripBucket]

/-- `lstrip` takes off slashes, and all of them. -/
theorem lstrip_segments (hnil : [] ∈ names) (key : List Char) :
    ∃ w, Segments '/' names w ∧ key = w ++ lstrip '/' key := by
  induction key with
  | nil => exact ⟨[], .nil, rfl⟩
  | cons c key ih =>
      by_cases hc : c = '/'
      · obtain ⟨w, hw, heq⟩ := ih
        have hstrip : lstrip '/' (c :: key) = lstrip '/' key :=
          List.dropWhile_cons_of_pos (decide_eq_true hc)
        refine ⟨[] ++ '/' :: w, .cons hnil hw, ?_⟩
        rw [hstrip, hc]
        exact congrArg (List.cons '/') heq
      · exact ⟨[], .nil, (lstrip_of_ne hc).symm⟩

/-- No slash leads after stripping them. -/
theorem not_slash_prefix_lstrip (key : List Char) : ¬ ['/'] <+: lstrip '/' key := by
  rintro ⟨rest, hrest⟩
  have hhead := List.head?_dropWhile_not (fun c => decide (c = '/')) key
  have hlstrip : key.dropWhile (fun c => decide (c = '/')) = '/' :: rest := hrest.symm
  rw [hlstrip] at hhead
  simp at hhead

/-- A key without leading slashes is not stripped. -/
theorem lstrip_of_not_prefix (h : ¬ ['/'] <+: key) : lstrip '/' key = key := by
  cases key with
  | nil => rfl
  | cons c key =>
      refine lstrip_of_ne fun hc => h ?_
      rw [hc]
      exact ⟨key, rfl⟩

/-- A round that has stripped something says so. -/
theorem foldl_stripped (candidates : List (List Char)) (key : List Char) :
    (candidates.foldl stripCandidate (key, true)).2 = true := by
  induction candidates generalizing key with
  | nil => rfl
  | cons b candidates ih =>
      rw [List.foldl_cons, stripCandidate]
      cases stripBucket b key with
      | some rest => exact ih rest
      | none => exact ih key

/-- The pass over the candidates takes off segments; if it has taken off none, no
candidate begins the key. -/
theorem stripCandidates_spec (hnames : ∀ b ∈ candidates, b ∈ names) (x : List Char × Bool) :
    ∃ w, Segments '/' names w ∧ x.1 = w ++ (candidates.foldl stripCandidate x).1 ∧
      ((candidates.foldl stripCandidate x).2 = false →
        (candidates.foldl stripCandidate x).1 = x.1 ∧ Clean '/' candidates x.1) := by
  induction candidates generalizing x with
  | nil => exact ⟨[], .nil, rfl, fun _ => ⟨rfl, fun b hb => absurd hb List.not_mem_nil⟩⟩
  | cons b candidates ih =>
      rw [List.foldl_cons]
      have htail := fun b' hb' => hnames b' (List.mem_cons_of_mem b hb')
      obtain ⟨w, hw, hrest, hend⟩ := ih htail (stripCandidate x b)
      cases hstrip : stripBucket b x.1 with
      | some rest =>
          have hstep : stripCandidate x b = (rest, true) := by simp only [stripCandidate, hstrip]
          rw [hstep] at hrest hend ⊢
          refine ⟨b ++ '/' :: w, .cons (hnames b List.mem_cons_self) hw, ?_, fun hnone => ?_⟩
          · rw [stripBucket_eq_some hstrip, List.append_assoc, List.cons_append, ← hrest]
          · rw [foldl_stripped] at hnone
            contradiction
      | none =>
          have hstep : stripCandidate x b = x := by simp only [stripCandidate, hstrip]
          rw [hstep] at hrest hend ⊢
          refine ⟨w, hw, hrest, fun hnone => ?_⟩
          obtain ⟨hsame, hclean⟩ := hend hnone
          refine ⟨hsame, fun b' hb' => ?_⟩
          rcases List.mem_cons.mp hb' with rfl | hb'
          · exact stripBucket_eq_none.mp hstrip
          · exact hclean b' hb'

/-- A round takes off segments, and a round that strips no bucket leaves none. -/
theorem stripRound_spec (hnil : [] ∈ names) (hnames : ∀ b ∈ candidates, b ∈ names)
    (key : List Char) :
    ∃ w, Segments '/' names w ∧ key = w ++ (stripRound candidates key).1 ∧
      ((stripRound candidates key).2 = false →
        Clean '/' ([] :: candidates) (stripRound candidates key).1) := by
  rw [stripRound_eq_foldl]
  obtain ⟨w, hw, hkey⟩ := lstrip_segments hnil key
  obtain ⟨w', hw', hrest, hend⟩ := stripCandidates_spec hnames (lstrip '/' key, false)
  refine ⟨w ++ w', hw.append hw', ?_, fun hnone => ?_⟩
  · rw [List.append_assoc, ← hrest]
    exact hkey
  · obtain ⟨hsame, hclean⟩ := hend hnone
    rw [hsame]
    intro b hb
    rcases List.mem_cons.mp hb with rfl | hb
    · exact not_slash_prefix_lstrip key
    · exact hclean b hb

/-! ## The loop -/

/-- The loop goes round `n` times before its `break`. -/
inductive Rounds (candidates : List (List Char)) : Nat → List Char → List Char → Prop
  | last {key : List Char} : (stripRound candidates key).2 = false →
      Rounds candidates 1 key (stripRound candidates key).1
  | again {n : Nat} {key result : List Char} : (stripRound candidates key).2 = true →
      Rounds candidates n (stripRound candidates key).1 result →
      Rounds candidates (n + 1) key result

/-- **The loop ends**, after at most one round for each character. -/
theorem stripLoop_rounds (candidates : List (List Char)) (key : List Char) :
    ∃ n ≤ key.length + 1, Rounds candidates n key (stripLoop candidates key) := by
  fun_induction stripLoop candidates key with
  | case1 key hstripped ih =>
      obtain ⟨n, hn, hrounds⟩ := ih
      have hshorter := (stripRound_length candidates key).2 hstripped
      exact ⟨n + 1, by omega, .again hstripped hrounds⟩
  | case2 key hlast =>
      exact ⟨1, by omega, .last (Bool.eq_false_iff.mpr hlast)⟩

/-- What the loop leaves is the key behind all its leading segments. -/
theorem stripLoop_spec (hnil : [] ∈ names) (hnames : ∀ b ∈ candidates, b ∈ names)
    (key : List Char) :
    ∃ w, Segments '/' names w ∧ key = w ++ stripLoop candidates key ∧
      Clean '/' ([] :: candidates) (stripLoop candidates key) := by
  fun_induction stripLoop candidates key with
  | case1 key _ ih =>
      obtain ⟨w, hw, hkey, -⟩ := stripRound_spec hnil hnames key
      obtain ⟨w', hw', hkey', hclean⟩ := ih
      refine ⟨w ++ w', hw.append hw', ?_, hclean⟩
      rw [List.append_assoc, ← hkey', ← hkey]
  | case2 key hlast =>
      obtain ⟨w, hw, hkey, hend⟩ := stripRound_spec hnil hnames key
      exact ⟨w, hw, hkey, hend (Bool.eq_false_iff.mpr hlast)⟩

end

/-! ## Signed keys -/

section
variable {bucket key : String}

/-- The names that are stripped hold no slash when the bucket holds none. -/
theorem slash_not_mem_strippedNames (hslash : '/' ∉ bucket.toList) :
    ∀ b ∈ strippedNames bucket, '/' ∉ b := by
  intro b hb
  simp only [strippedNames, bucketCandidates, List.mem_cons, List.not_mem_nil, or_false] at hb
  rcases hb with rfl | rfl | rfl | rfl
  · exact List.not_mem_nil
  · exact hslash
  · decide
  · decide

/-- The names that are stripped hold no colon when the bucket holds none. -/
theorem colon_not_mem_strippedNames (hcolon : ':' ∉ bucket.toList) :
    ∀ b ∈ strippedNames bucket, ':' ∉ b := by
  intro b hb
  simp only [strippedNames, bucketCandidates, List.mem_cons, List.not_mem_nil, or_false] at hb
  rcases hb with rfl | rfl | rfl | rfl
  · exact List.not_mem_nil
  · exact hcolon
  · decide
  · decide

/-- Without a scheme the key is what the loop leaves of it. -/
theorem toList_presignedGetKey (h : ¬ Contains [':', '/', '/'] key.toList) :
    (presignedGetKey bucket key).toList = stripLoop (bucketCandidates bucket) key.toList := by
  have hnames : ∀ b ∈ bucketCandidates bucket, b ∈ strippedNames bucket :=
    fun b hb => List.mem_cons_of_mem [] hb
  obtain ⟨-, -, -, hclean⟩ := stripLoop_spec List.mem_cons_self hnames key.toList
  rw [presignedGetKey, stripScheme, if_neg h, String.toList_ofList,
    lstrip_of_not_prefix (hclean [] List.mem_cons_self)]

/-- A key that is no URL is segments and its normal form. -/
theorem presignedGetKey_spec (bucket : String) (h : ¬ Contains [':', '/', '/'] key.toList) :
    ∃ w, Segments '/' (strippedNames bucket) w ∧
      key.toList = w ++ (presignedGetKey bucket key).toList ∧
      Clean '/' (strippedNames bucket) (presignedGetKey bucket key).toList := by
  rw [toList_presignedGetKey h]
  exact stripLoop_spec List.mem_cons_self (fun b hb => List.mem_cons_of_mem [] hb) key.toList

/-- Without a scheme the key loses a front part only. -/
theorem suffix_presignedGetKey (h : ¬ Contains [':', '/', '/'] key.toList) :
    (presignedGetKey bucket key).toList <:+ key.toList := by
  obtain ⟨w, -, hkey, -⟩ := presignedGetKey_spec bucket h
  exact ⟨w, hkey.symm⟩

/-- Two keys that differ by leading segments have one normal form. -/
theorem presignedGetKey_eq (hslash : '/' ∉ bucket.toList) {key' : String} {w : List Char}
    (hw : Segments '/' (strippedNames bucket) w) (hkey' : key'.toList = w ++ key.toList)
    (h : ¬ Contains [':', '/', '/'] key.toList) (h' : ¬ Contains [':', '/', '/'] key'.toList) :
    presignedGetKey bucket key' = presignedGetKey bucket key := by
  obtain ⟨v, hv, hrest, hclean⟩ := presignedGetKey_spec bucket h
  obtain ⟨v', hv', hrest', hclean'⟩ := presignedGetKey_spec bucket h'
  have heq : v' ++ (presignedGetKey bucket key').toList =
      (w ++ v) ++ (presignedGetKey bucket key).toList := by
    rw [← hrest', hkey', List.append_assoc, ← hrest]
  exact String.toList_inj.mp (hv'.rest_unique (slash_not_mem_strippedNames hslash) (hw.append hv)
    hclean' hclean heq)

/-- Segments put in front of a key are stripped again. -/
theorem presignedGetKey_segments (hslash : '/' ∉ bucket.toList) (hcolon : ':' ∉ bucket.toList)
    (h : ¬ Contains [':', '/', '/'] key.toList) {w : String}
    (hw : Segments '/' (strippedNames bucket) w.toList) :
    presignedGetKey bucket (w ++ key) = presignedGetKey bucket key := by
  have hlist : (w ++ key).toList = w.toList ++ key.toList := String.toList_append
  refine presignedGetKey_eq hslash hw hlist h ?_
  have hplain : ':' ∉ w.toList := hw.not_mem (by decide) (colon_not_mem_strippedNames hcolon)
  rwa [hlist, contains_append hplain]

/-- Normalising a normal key changes nothing. -/
theorem presignedGetKey_idem (hslash : '/' ∉ bucket.toList)
    (h : ¬ Contains [':', '/', '/'] key.toList) :
    presignedGetKey bucket (presignedGetKey bucket key) = presignedGetKey bucket key := by
  obtain ⟨w, hw, hkey, -⟩ := presignedGetKey_spec bucket h
  have hresult : ¬ Contains [':', '/', '/'] (presignedGetKey bucket key).toList :=
    fun hcontains => h (hcontains.trans (suffix_presignedGetKey h).isInfix)
  exact (presignedGetKey_eq hslash hw hkey hresult h).symm

/-- A slash, or the name of a bucket and a slash. -/
def IsSegment (bucket w : String) : Prop :=
  w = "/" ∨ ∃ b ∈ bucketCandidates bucket, w.toList = b ++ ['/']

/-- A segment of text is one segment of characters. -/
theorem IsSegment.segments {w : String} (h : IsSegment bucket w) :
    Segments '/' (strippedNames bucket) w.toList := by
  rcases h with rfl | ⟨b, hb, hw⟩
  · exact .one (b := []) List.mem_cons_self
  · rw [hw]
    exact .one (List.mem_cons_of_mem [] hb)

/-- Several segments joined are segments. -/
theorem segments_join {parts : List String} (h : ∀ w ∈ parts, IsSegment bucket w) :
    Segments '/' (strippedNames bucket) (String.join parts).toList := by
  rw [String.toList_join]
  refine .flatten fun w hw => ?_
  obtain ⟨part, hpart, rfl⟩ := List.mem_map.mp hw
  exact (h part hpart).segments

/-- **The signed key is a normal form**: the loop ends, no slash and no bucket is
left in front, it is the end of the key, and slashes and names of buckets in
front of the key change nothing. -/
theorem presignedGetKey_canonical (hslash : '/' ∉ bucket.toList) (hcolon : ':' ∉ bucket.toList)
    (h : ¬ Contains [':', '/', '/'] key.toList) :
    (∃ n ≤ key.toList.length + 1, Rounds (bucketCandidates bucket) n key.toList
      (presignedGetKey bucket key).toList) ∧
    ¬ ['/'] <+: (presignedGetKey bucket key).toList ∧
    (∀ b ∈ bucketCandidates bucket, ¬ b ++ ['/'] <+: (presignedGetKey bucket key).toList) ∧
    (presignedGetKey bucket key).toList <:+ key.toList ∧
    (∀ parts : List String, (∀ w ∈ parts, IsSegment bucket w) →
      presignedGetKey bucket (String.join parts ++ key) = presignedGetKey bucket key) ∧
    presignedGetKey bucket (presignedGetKey bucket key) = presignedGetKey bucket key := by
  obtain ⟨-, -, -, hclean⟩ := presignedGetKey_spec bucket h
  refine ⟨?_, hclean [] List.mem_cons_self, fun b hb => hclean b (List.mem_cons_of_mem [] hb),
    suffix_presignedGetKey h, fun parts hparts => ?_, presignedGetKey_idem hslash h⟩
  · rw [toList_presignedGetKey h]
    exact stripLoop_rounds _ _
  · exact presignedGetKey_segments hslash hcolon h (segments_join hparts)

end

/-- A key behind two of the names and a double slash. -/
theorem presignedGetKey_canonical_nested :
    presignedGetKey "media" "/s3-fairdrop-media//media/products/a.png" =
      presignedGetKey "media" "products/a.png" := by
  have hslash : '/' ∉ "media".toList := by decide
  have hcolon : ':' ∉ "media".toList := by decide
  have hplain : ¬ Contains [':', '/', '/'] "products/a.png".toList := by decide
  refine (presignedGetKey_canonical hslash hcolon hplain).2.2.2.2.1
    ["/", "s3-fairdrop-media/", "/", "media/"] fun w hw => ?_
  simp only [List.mem_cons, List.not_mem_nil, or_false] at hw
  rcases hw with rfl | rfl | rfl | rfl
  · exact .inl rfl
  · exact .inr ⟨"s3-fairdrop-media".toList, by simp [bucketCandidates], by decide⟩
  · exact .inl rfl
  · exact .inr ⟨"media".toList, by simp [bucketCandidates], by decide⟩

end FairDrop
