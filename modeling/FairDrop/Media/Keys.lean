import FairDrop.Media.Service
import FairDrop.Text.Segments

/-!
# FairDrop.Media.Keys

An image is stored under one key, which is written down three times: in its
row, in the URL that is signed for reading it, and in the event that MinIO
sends.  The signed key differs if the file name contains `://`
(`presignedGetKey_filePath`), the event's if it contains a space
(`found_iff_no_space`).
-/

namespace FairDrop

open RowStore Text

/-! ## File paths -/

theorem toList_filePath (productId imageId : Uuid) (filename : String) :
    (filePath productId imageId filename).toList =
      pathStart productId imageId ++ filename.toList :=
  String.toList_ofList

/-- Only slashes, dashes, letters and digits precede the file name. -/
theorem mem_pathStart {productId imageId : Uuid} {c : Char} (h : c ∈ pathStart productId imageId) :
    c.isAlphanum ∨ c = '-' ∨ c = '/' := by
  simp only [pathStart, List.append_assoc, List.cons_append, List.mem_append, List.mem_cons,
    List.not_mem_nil, or_false] at h
  rcases h with h | h | h | h | h | h
  · have hproducts : ∀ d ∈ productsFolder, d.isAlphanum ∨ d = '-' ∨ d = '/' := by
      simp [productsFolder]
    exact hproducts c h
  · exact .inr (.inr h)
  · exact (mem_uuidText h).imp_right .inl
  · exact .inr (.inr h)
  · exact (mem_uuidText h).imp_right .inl
  · exact .inr (.inl h)

/-- The directories of a path hold letters, digits, dashes and slashes only. -/
theorem not_mem_pathStart {productId imageId : Uuid} {c : Char} (h : c.isAlphanum = false)
    (hdash : c ≠ '-') (hslash : c ≠ '/') : c ∉ pathStart productId imageId := by
  intro hc
  have halphanum := (mem_pathStart hc).resolve_right (not_or.mpr ⟨hdash, hslash⟩)
  rw [h] at halphanum
  contradiction

/-! ## Signed keys -/

/-- A key that begins with no candidate and no slash is left alone. -/
theorem stripLoop_of_clean {candidates : List (List Char)} {c : Char} {key : List Char}
    (hslash : c ≠ '/') (h : ∀ b ∈ candidates, stripBucket b (c :: key) = none) :
    stripLoop candidates (c :: key) = c :: key := by
  have hround : stripRound candidates (c :: key) = (c :: key, false) := by
    unfold stripRound
    rw [lstrip_of_ne hslash]
    induction candidates with
    | nil => rfl
    | cons b candidates ih =>
        rw [List.foldl_cons]
        simp only [h b List.mem_cons_self]
        exact ih fun b' hb' => h b' (List.mem_cons_of_mem b hb')
  rw [stripLoop, hround]
  rfl

/-- Stripping makes no key longer. -/
theorem stripLoop_length_le (candidates : List (List Char)) (key : List Char) :
    (stripLoop candidates key).length ≤ key.length := by
  fun_induction stripLoop candidates key with
  | case1 key _ ih => exact Nat.le_trans ih (stripRound_length candidates key).1
  | case2 key _ => exact (stripRound_length candidates key).1

section
variable {bucket filename : String} {productId imageId : Uuid}

/-- No bucket is stripped off a file path. -/
theorem stripBucket_filePath {b : List Char} (hslash : '/' ∉ b) (hproducts : b ≠ productsFolder) :
    stripBucket b (filePath productId imageId filename).toList = none := by
  unfold stripBucket
  rw [toList_filePath, if_neg]
  intro hprefix
  have hfirst : b ++ ['/'] <+: productsFolder ++
      '/' :: (uuidText productId ++ '/' :: uuidText imageId ++ '-' :: filename.toList) := by
    simpa [pathStart] using hprefix
  exact hproducts (eq_of_separator (by decide) hslash hfirst)

/-- What looks like a URL is cut behind its third slash. -/
theorem stripScheme_filePath (h : Contains [':', '/', '/'] filename.toList) :
    (stripScheme (filePath productId imageId filename).toList).length <
      (filePath productId imageId filename).toList.length := by
  have hpath : Contains [':', '/', '/'] (filePath productId imageId filename).toList := by
    rw [toList_filePath]
    exact h.trans (List.suffix_append _ _).isInfix
  have hslashes : 3 ≤ (filePath productId imageId filename).toList.count '/' := by
    have hname : 1 ≤ filename.toList.count '/' :=
      List.count_pos_iff.mpr (h.subset (by decide))
    rw [toList_filePath]
    simp only [pathStart, List.count_append, List.count_cons_self]
    omega
  have hparts : (splitMax '/' 3 (filePath productId imageId filename).toList).length =
      min 3 ((filePath productId imageId filename).toList.count '/') + 1 := length_splitMax 3 _
  unfold stripScheme
  rw [if_pos hpath]
  cases hpart : (splitMax '/' 3 (filePath productId imageId filename).toList)[3]? with
  | none =>
      rw [List.getElem?_eq_none_iff] at hpart
      omega
  | some part =>
      have hlength := splitMax_getElem_length hpart
      rw [Option.getD_some]
      omega

/-- **The signed key is the stored one** exactly for the file names that contain
no `://`. -/
theorem presignedGetKey_filePath (hslash : '/' ∉ bucket.toList) (hproducts : bucket ≠ "products") :
    presignedGetKey bucket (filePath productId imageId filename) =
        filePath productId imageId filename ↔
      ¬ Contains [':', '/', '/'] filename.toList := by
  constructor
  · intro hsame hscheme
    have hcut : (stripScheme (filePath productId imageId filename).toList).length <
        (filePath productId imageId filename).toList.length := stripScheme_filePath hscheme
    have hloop := stripLoop_length_le (bucketCandidates bucket)
      (stripScheme (filePath productId imageId filename).toList)
    have hstrip := lstrip_length_le '/' (stripLoop (bucketCandidates bucket)
      (stripScheme (filePath productId imageId filename).toList))
    have hlength := congrArg (fun s => s.toList.length) hsame
    simp only [presignedGetKey, String.toList_ofList] at hlength
    omega
  · intro hplain
    have hpath : ¬ Contains [':', '/', '/'] (filePath productId imageId filename).toList := by
      rw [toList_filePath]
      intro hcontains
      exact hplain ((contains_append (not_mem_pathStart (by decide) (by decide) (by decide))).mp
        hcontains)
    have hclean : ∀ b ∈ bucketCandidates bucket,
        stripBucket b (filePath productId imageId filename).toList = none := by
      intro b hb
      simp only [bucketCandidates, List.mem_cons, List.not_mem_nil, or_false] at hb
      rcases hb with rfl | rfl | rfl
      · exact stripBucket_filePath hslash fun heq => hproducts (String.toList_inj.mp heq)
      · exact stripBucket_filePath (by decide) (by decide)
      · exact stripBucket_filePath (by decide) (by decide)
    have hhead : (filePath productId imageId filename).toList =
        'p' :: (filePath productId imageId filename).toList.tail := by
      rw [toList_filePath]
      rfl
    rw [presignedGetKey, stripScheme, if_neg hpath, hhead,
      stripLoop_of_clean (by decide) (hhead ▸ hclean), lstrip_of_ne (by decide), ← hhead,
      String.ofList_toList]

end

theorem presignedGetKey_filePath_png :
    presignedGetKey "media" (filePath 1 2 "lamp.png") = filePath 1 2 "lamp.png" :=
  (presignedGetKey_filePath (by decide) (by decide)).mpr (by decide)

/-- A file name that makes the page of the product sign another object. -/
theorem not_presignedGetKey_filePath :
    presignedGetKey "media" (filePath 1 2 "x://verification/doc.pdf") = "verification/doc.pdf" ∧
      presignedGetKey "media" (filePath 1 2 "x://verification/doc.pdf") ≠
        filePath 1 2 "x://verification/doc.pdf" := by
  decide +kernel

/-! ## Keys of events -/

/-- The record that MinIO sends when a form was posted for the key. -/
def uploaded (key : String) : S3Record where
  eventName := "s3:ObjectCreated:Post"
  key := .ofList (queryEscape key.toList)

theorem uploaded_created (key : String) :
    "s3:ObjectCreated:".toList <+: (uploaded key).eventName.toList := by
  show "s3:ObjectCreated:".toList <+: "s3:ObjectCreated:Post".toList
  decide

/-- The webhook reads a key with its spaces as plus signs. -/
theorem objectKey_uploaded (key : String) :
    objectKey (uploaded key) = .ofList (key.toList.map plusForSpace) := by
  rw [objectKey, uploaded, String.toList_ofList, unquote_queryEscape]

/-- The webhook reads a key as it is exactly when it has no space. -/
theorem objectKey_uploaded_eq_self {key : String} :
    objectKey (uploaded key) = key ↔ ' ' ∉ key.toList := by
  rw [objectKey_uploaded, ← map_plusForSpace_eq_self, ← String.toList_inj, String.toList_ofList]

/-! ## Rows of uploads -/

/-- The row of an image, as `generate_upload_url` writes it: its path ends in
the name of the file. -/
structure Filed (image : ProductImage) : Prop where
  id_lt : image.id < 2 ^ 128
  filePath_eq : ∃ filename, image.filePath = filePath image.productId image.id filename

theorem Filed.newImage {productId imageId : Uuid} {req : ImageUploadRequest}
    (hid : imageId < 2 ^ 128) : Filed (newImage productId imageId req) :=
  ⟨hid, req.filename, rfl⟩

/-- The path of an image tells its id. -/
theorem filePath_inj {productId productId' imageId imageId' : Uuid} {filename filename' : String}
    (hid : imageId < 2 ^ 128) (hid' : imageId' < 2 ^ 128)
    (h : filePath productId imageId filename = filePath productId' imageId' filename') :
    imageId = imageId' := by
  have hlist := congrArg String.toList h
  rw [toList_filePath, toList_filePath] at hlist
  obtain ⟨hstart, -⟩ := List.append_inj hlist (by simp [pathStart, length_uuidText])
  unfold pathStart at hstart
  obtain ⟨hfolders, -⟩ := List.append_inj' hstart rfl
  obtain ⟨-, hrest⟩ := List.append_inj' hfolders (by simp [length_uuidText])
  exact uuidText_inj hid hid' (List.cons_inj_right '/' |>.mp hrest)

/-- Two images filed under one path are the same image. -/
theorem Filed.id_eq {image image' : ProductImage} (h : Filed image) (h' : Filed image')
    (hpath : image.filePath = image'.filePath) : image.id = image'.id := by
  obtain ⟨filename, hname⟩ := h.filePath_eq
  obtain ⟨filename', hname'⟩ := h'.filePath_eq
  rw [hname, hname'] at hpath
  exact filePath_inj h.id_lt h'.id_lt hpath

/-! ## Enqueuing -/

/-- A filed image is found by its path. -/
theorem imageByPath_eq_some {images : Table ProductImage} {image : ProductImage}
    (hfiled : ∀ i ∈ images.rows, Filed i) (himage : image ∈ images.rows) :
    imageByPath images image.filePath = .ok (some image) := by
  unfold imageByPath
  rw [Table.filter_eq_singleton himage (decide_eq_true rfl) fun i hi hpath =>
    (hfiled i hi).id_eq (hfiled image himage) (of_decide_eq_true hpath)]

/-- The webhook finds a pending image by the key of its event, and enqueues it. -/
theorem handleRecord_uploaded {images : Table ProductImage} {image : ProductImage}
    (hfiled : ∀ i ∈ images.rows, Filed i) (himage : image ∈ images.rows)
    (hpending : image.status = .pending) (hspace : ' ' ∉ image.filePath.toList) :
    handleRecord images true (uploaded image.filePath) =
      .ok (some ⟨image.id, image.filePath⟩) := by
  unfold handleRecord
  rw [objectKey_uploaded_eq_self.mpr hspace, imageByPath_eq_some hfiled himage,
    if_neg (not_not.mpr (uploaded_created _))]
  simp only [bind, Except.bind, hpending]
  rfl

section
variable {productId imageId : Uuid} {filename : String} {req : ImageUploadRequest}

theorem space_not_mem_filePath :
    ' ' ∉ (filePath productId imageId filename).toList ↔ ' ' ∉ filename.toList := by
  have hstart : ' ' ∉ pathStart productId imageId :=
    not_mem_pathStart (by decide) (by decide) (by decide)
  rw [toList_filePath, List.mem_append, not_or]
  exact and_iff_right hstart

theorem objectKey_filePath :
    objectKey (uploaded (filePath productId imageId filename)) =
      filePath productId imageId (.ofList (filename.toList.map plusForSpace)) := by
  have hstart : (pathStart productId imageId).map plusForSpace = pathStart productId imageId :=
    map_plusForSpace_eq_self.mpr (not_mem_pathStart (by decide) (by decide) (by decide))
  rw [objectKey_uploaded, toList_filePath, List.map_append, hstart, filePath,
    String.toList_ofList]

/-- No row has the key of an event if the name of the file contains a space. -/
theorem handleRecord_spaced {images : Table ProductImage}
    (hfiled : ∀ i ∈ images.rows, Filed i) (himage : newImage productId imageId req ∈ images.rows)
    (hspace : ' ' ∈ req.filename.toList) (arqRedis : Bool) :
    handleRecord images arqRedis (uploaded (filePath productId imageId req.filename)) =
      .ok none := by
  have hnone : images.rows.filter (fun i => i.filePath =
      objectKey (uploaded (filePath productId imageId req.filename))) = [] := by
    refine List.filter_eq_nil_iff.mpr fun i hi hpath => ?_
    have hkey := of_decide_eq_true hpath
    have hid : i.id = imageId := by
      obtain ⟨filename, hname⟩ := (hfiled i hi).filePath_eq
      rw [hname, objectKey_filePath] at hkey
      exact filePath_inj (hfiled i hi).id_lt (hfiled _ himage).id_lt hkey
    obtain rfl := images.eq_of_key hi himage hid
    exact (space_not_mem_filePath.mp (objectKey_uploaded_eq_self.mp hkey.symm)) hspace
  unfold handleRecord imageByPath
  rw [hnone, if_neg (not_not.mpr (uploaded_created _))]
  rfl

/-- **The webhook finds the image** exactly for the file names that contain no
space: the key of the event is read back, and the pending image is enqueued. -/
theorem found_iff_no_space :
    (objectKey (uploaded (filePath productId imageId req.filename)) =
        filePath productId imageId req.filename ∧
      ∀ images : Table ProductImage, (∀ i ∈ images.rows, Filed i) →
        newImage productId imageId req ∈ images.rows →
        handleRecord images true (uploaded (filePath productId imageId req.filename)) =
          .ok (some ⟨imageId, filePath productId imageId req.filename⟩)) ↔
      ' ' ∉ req.filename.toList := by
  have hname : ' ' ∉ (filePath productId imageId req.filename).toList ↔ _ := space_not_mem_filePath
  rw [← hname]
  constructor
  · intro h
    exact objectKey_uploaded_eq_self.mp h.1
  · intro hspace
    refine ⟨objectKey_uploaded_eq_self.mpr hspace, fun images hfiled himage => ?_⟩
    have hfound := handleRecord_uploaded hfiled himage rfl hspace
    exact hfound

end

/-- A pending image that its own event does not find. -/
theorem not_found :
    objectKey (uploaded (filePath 1 2 "my lamp.png")) ≠ filePath 1 2 "my lamp.png" ∧
      handleRecord ⟨[newImage 1 2 ⟨"my lamp.png", "image/png"⟩], by simp⟩ true
        (uploaded (filePath 1 2 "my lamp.png")) = .ok none := by
  have hspace : ' ' ∈ "my lamp.png".toList := by decide
  constructor
  · intro hkey
    exact space_not_mem_filePath.mp (objectKey_uploaded_eq_self.mp hkey) hspace
  · let req : ImageUploadRequest := ⟨"my lamp.png", "image/png"⟩
    let images : Table ProductImage := ⟨[newImage 1 2 req], by simp⟩
    have himage : newImage 1 2 req ∈ images.rows := List.mem_singleton_self _
    have hfiled : ∀ i ∈ images.rows, Filed i := by
      intro i hi
      rw [List.mem_singleton.mp hi]
      exact .newImage (by decide)
    have hskipped := handleRecord_spaced hfiled himage hspace true
    exact hskipped

end FairDrop
