import FairDrop.Media.Models
import FairDrop.Text.Percent
import FairDrop.Text.Str

/-!
# FairDrop.Media.Service

Upload URLs, the keys that are signed for reading, and the webhook of MinIO
(`media/service.py`).
-/

namespace FairDrop

open RowStore Text

/-! ## Reading -/

/-- What is left of a key that looks like a URL: the part behind the host. -/
def stripScheme (key : List Char) : List Char :=
  if Contains [':', '/', '/'] key then ((splitMax '/' 3 key)[3]?).getD key else key

/-- `key[len(b) + 1:]` if the key starts with `b` and a slash. -/
def stripBucket (b key : List Char) : Option (List Char) :=
  if b ++ ['/'] <+: key then some (key.drop (b.length + 1)) else none

/-- One round of `while True`, and whether it has stripped a bucket. -/
def stripRound (candidates : List (List Char)) (key : List Char) : List Char × Bool :=
  candidates.foldl (fun (key, stripped) b => match stripBucket b key with
    | some rest => (rest, true)
    | none => (key, stripped)) (lstrip '/' key, false)

theorem stripBucket_length {b key rest : List Char} (h : stripBucket b key = some rest) :
    rest.length < key.length := by
  unfold stripBucket at h
  split at h
  · next hprefix =>
      obtain rfl := Option.some.inj h
      have hle := hprefix.length_le
      rw [List.length_append, List.length_singleton] at hle
      rw [List.length_drop]
      omega
  · contradiction

/-- A round never makes the key longer, and shorter if it strips a bucket. -/
theorem stripRound_length (candidates : List (List Char)) (key : List Char) :
    (stripRound candidates key).1.length ≤ key.length ∧
      ((stripRound candidates key).2 → (stripRound candidates key).1.length < key.length) := by
  have hround : ∀ (l : List (List Char)) (x : List Char × Bool), x.1.length ≤ key.length →
      (x.2 → x.1.length < key.length) →
      let y := l.foldl (fun (key, stripped) b => match stripBucket b key with
        | some rest => (rest, true)
        | none => (key, stripped)) x
      y.1.length ≤ key.length ∧ (y.2 → y.1.length < key.length) := by
    intro l
    induction l with
    | nil => exact fun x hle hlt => ⟨hle, hlt⟩
    | cons b l ih =>
        intro x hle hlt
        rw [List.foldl_cons]
        cases hstrip : stripBucket b x.1 with
        | none => exact ih _ (by simpa [hstrip] using hle) (by simpa [hstrip] using hlt)
        | some rest =>
            have hshort := stripBucket_length hstrip
            exact ih _ (by simp only [hstrip]; omega) fun _ => by simp only [hstrip]; omega
  exact hround candidates _ (lstrip_length_le '/' key) (by simp)

/-- The rounds, until one strips no bucket. -/
def stripLoop (candidates : List (List Char)) (key : List Char) : List Char :=
  if (stripRound candidates key).2 then stripLoop candidates (stripRound candidates key).1
  else (stripRound candidates key).1
termination_by key.length
decreasing_by
  next hstripped => exact (stripRound_length candidates key).2 hstripped

def bucketCandidates (bucket : String) : List (List Char) :=
  [bucket.toList, "s3_fairdrop-media".toList, "s3-fairdrop-media".toList]

/-- The key that `generate_presigned_get_url` signs. -/
def presignedGetKey (bucket key : String) : String :=
  .ofList (lstrip '/' (stripLoop (bucketCandidates bucket) (stripScheme key.toList)))

/-! ## Uploading -/

def productsFolder : List Char := ['p', 'r', 'o', 'd', 'u', 'c', 't', 's']

/-- `products/{product_id}/{image_id}-`, what precedes the file name. -/
def pathStart (productId imageId : Uuid) : List Char :=
  productsFolder ++ '/' :: uuidText productId ++ '/' :: uuidText imageId ++ ['-']

def filePath (productId imageId : Uuid) (filename : String) : String :=
  .ofList (pathStart productId imageId ++ filename.toList)

structure MediaSettings where
  minioBucketName : String
  minFileSizeBytes : Nat
  maxFileSizeBytes : Nat
  presignedUrlExpireSeconds : Nat

/-- What a presigned POST lets its holder do. -/
structure PresignedPost where
  bucket : String
  key : String
  contentType : String
  contentLengthRange : Nat × Nat
  expiresIn : Nat
  deriving DecidableEq, Repr

def newImage (productId imageId : Uuid) (req : ImageUploadRequest) : ProductImage where
  id := imageId
  productId := productId
  filePath := filePath productId imageId req.filename
  status := .pending

/-- The table with the new row, and the form that is signed for it. -/
def generateUploadUrl (settings : MediaSettings) (products : List Uuid)
    (images : Table ProductImage) (imageId productId : Uuid) (req : ImageUploadRequest) :
    Except Failure (Table ProductImage × PresignedPost) := do
  if productId ∉ products then throw (.notFound)
  let dbImage := newImage productId imageId req
  let images ← match images.insert? dbImage with
    | some images => pure images
    | none => throw .integrityError
  return (images, {
    bucket := settings.minioBucketName
    key := dbImage.filePath
    contentType := req.contentType
    contentLengthRange := (settings.minFileSizeBytes, settings.maxFileSizeBytes)
    expiresIn := settings.presignedUrlExpireSeconds })

/-- The form is for the path of the new row. -/
theorem generateUploadUrl_eq_ok {settings : MediaSettings} {products : List Uuid}
    {images images' : Table ProductImage} {imageId productId : Uuid} {req : ImageUploadRequest}
    {post : PresignedPost}
    (h : generateUploadUrl settings products images imageId productId req = .ok (images', post)) :
    post.key = filePath productId imageId req.filename ∧
      ∃ fresh : images.get imageId = none,
        images' = images.insert (newImage productId imageId req) fresh := by
  simp only [generateUploadUrl, bind, Except.bind, pure, Except.pure] at h
  split at h
  · contradiction
  · split at h
    · next table hsome =>
        obtain ⟨fresh, htable⟩ := Table.insert?_eq_some.mp hsome
        obtain ⟨rfl, rfl⟩ := Prod.mk.inj (Except.ok.inj h)
        exact ⟨rfl, fresh, htable⟩
    · contradiction

/-! ## The webhook -/

/-- An enqueued run of `sanitize_and_activate_image_task`. -/
structure Job where
  imageId : Uuid
  objectKey : String
  deriving DecidableEq, Repr

/-- `unquote(record.s3.object.key)` -/
def objectKey (record : S3Record) : String := .ofList (unquote record.key.toList)

/-- `session.execute(select(ProductImage).where(…)).scalar_one_or_none()` -/
def imageByPath (images : Table ProductImage) (path : String) :
    Except Failure (Option ProductImage) :=
  match images.rows.filter fun i => i.filePath = path with
  | [] => .ok none
  | [i] => .ok (some i)
  | _ => .error .multipleResultsFound

/-- One pass of the loop over the records: the job that it enqueues. -/
def handleRecord (images : Table ProductImage) (arqRedis : Bool) (record : S3Record) :
    Except Failure (Option Job) :=
  if ¬ "s3:ObjectCreated:".toList <+: record.eventName.toList then .ok none
  else do
    let image ← imageByPath images (objectKey record)
    match image with
    | none => return none
    | some image =>
        if image.status ≠ .pending then return none
        else if ¬ arqRedis then return none
        else return some ⟨image.id, objectKey record⟩

theorem mem_of_imageByPath {images : Table ProductImage} {path : String} {image : ProductImage}
    (h : imageByPath images path = .ok (some image)) :
    image ∈ images.rows ∧ image.filePath = path := by
  unfold imageByPath at h
  split at h
  · simp at h
  · next i hrows =>
      obtain rfl := Option.some.inj (Except.ok.inj h)
      have hmem : i ∈ images.rows.filter fun i => i.filePath = path := by simp [hrows]
      simpa using List.mem_filter.mp hmem
  · simp at h

/-- What is enqueued is a pending image under the key of the record. -/
theorem handleRecord_eq_some {images : Table ProductImage} {arqRedis : Bool} {record : S3Record}
    {job : Job} (h : handleRecord images arqRedis record = .ok (some job)) :
    arqRedis ∧ ∃ image ∈ images.rows, image.filePath = objectKey record ∧
      image.status = .pending ∧ job = ⟨image.id, objectKey record⟩ := by
  unfold handleRecord at h
  split at h
  · simp at h
  · cases hfound : imageByPath images (objectKey record) with
    | error e => simp [hfound, bind, Except.bind] at h
    | ok found =>
        cases found with
        | none => simp [hfound, bind, Except.bind, pure, Except.pure] at h
        | some image =>
            obtain ⟨hrow, hpath⟩ := mem_of_imageByPath hfound
            simp only [hfound, bind, Except.bind, pure, Except.pure] at h
            split at h
            · simp at h
            · next hpending =>
                split at h
                · simp at h
                · next hredis =>
                    refine ⟨not_not.mp hredis, image, hrow, hpath, not_not.mp hpending, ?_⟩
                    exact (Option.some.inj (Except.ok.inj h)).symm

/-- The loop over the records: the jobs that it enqueues before it ends, and how
it ends. -/
def handleRecords (images : Table ProductImage) (arqRedis : Bool) :
    List S3Record → List Job × Except Failure Unit
  | [] => ([], .ok ())
  | record :: records =>
      match handleRecord images arqRedis record with
      | .error e => ([], .error e)
      | .ok job =>
          let (jobs, answer) := handleRecords images arqRedis records
          (job.toList ++ jobs, answer)

def handleMinioWebhook (images : Table ProductImage) (arqRedis : Bool)
    (event : MinioWebhookEvent) : List Job × Except Failure Unit :=
  handleRecords images arqRedis event.records

end FairDrop
