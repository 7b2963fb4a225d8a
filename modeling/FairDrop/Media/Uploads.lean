import FairDrop.Media.Keys
import FairDrop.RowStore.Machine

/-!
# FairDrop.Media.Uploads

Uploading and sanitizing as they run side by side (`media/service.py` and
`media/tasks.py`): forms are posted to the bucket, their events are delivered
in any order and as often as one likes, and every delivery may enqueue another
run of `sanitize_and_activate_image_task`, which works in steps.
-/

namespace FairDrop

open RowStore Text

abbrev Bytes := List UInt8

/-! ## The task -/

/-- How far a run of `sanitize_and_activate_image_task` has come. -/
inductive TaskStage where
  | queued
  | read (imageData : Bytes)
  | processed (sanitizedData : Bytes)
  /-- The object is written. -/
  | written
  /-- The row was read, and `ACTIVE` is pending. -/
  | activating (seen : ImageStatus)
  /-- An exception was caught. -/
  | failed
  /-- The row was read, and `FAILED` is pending. -/
  | failing (seen : ImageStatus)
  | ended
  deriving DecidableEq

/-- The status that the next commit writes. -/
def TaskStage.pending : TaskStage → Option ImageStatus
  | .activating seen => if seen = .active then none else some .active
  | .failing seen => if seen = .failed then none else some .failed
  | _ => none

/-- A task that has a status to write has not ended. -/
theorem TaskStage.ne_ended_of_pending {stage : TaskStage} {status : ImageStatus}
    (h : stage.pending = some status) : stage ≠ .ended := by
  rintro rfl
  simp [pending] at h

/-- The statuses that a task writes. -/
theorem TaskStage.pending_eq_some {stage : TaskStage} {status : ImageStatus}
    (h : stage.pending = some status) : status = .active ∨ status = .failed := by
  cases stage with
  | activating seen => exact .inl (by simp_all [pending])
  | failing seen => exact .inr (by simp_all [pending])
  | _ => simp [pending] at h

/-- What a call of the task can meet with. -/
inductive Mishap where
  /-- It raises, and has no effect. -/
  | refused
  /-- It raises, after it has taken effect. -/
  | lost
  /-- The task is cancelled, which `except Exception` does not catch. -/
  | cancelled
  deriving DecidableEq

/-- The flush of `image.status = status`: no `UPDATE` if the loaded row had the
status already. -/
def writeStatus (images : Table ProductImage) (imageId : Uuid) (seen status : ImageStatus) :
    Table ProductImage :=
  if seen = status then images
  else match images.get imageId with
    | some image => images.set { image with status := status }
    | none => images

/-- Which row a task's write changes, and to which status. -/
theorem get_writeStatus (images : Table ProductImage) (imageId : Uuid) (seen status : ImageStatus)
    (id : Uuid) :
    (writeStatus images imageId seen status).get id =
      if id = imageId ∧ seen ≠ status then
        (images.get id).map fun image => { image with status := status }
      else images.get id := by
  unfold writeStatus
  by_cases hseen : seen = status
  · rw [if_pos hseen, if_neg fun h => h.2 hseen]
  · rw [if_neg hseen]
    cases himage : images.get imageId with
    | none =>
        show images.get id = _
        by_cases hid : id = imageId
        · rw [if_pos ⟨hid, hseen⟩, hid, himage, Option.map_none]
        · rw [if_neg fun h => hid h.1]
    | some image =>
        have hkey : image.id = imageId := Table.key_of_get himage
        have hset := Table.get_set_of_key (r := { image with status := status }) himage hkey id
        show (images.set { image with status := status }).get id = _
        rw [hset]
        by_cases hid : imageId = id
        · rw [if_pos hid, if_pos ⟨hid.symm, hseen⟩, ← hid, himage, Option.map_some, hkey]
        · rw [if_neg hid, if_neg fun h => hid h.1.symm]

/-! ## The system -/

/-- The database, the bucket with the events it has sent, and the queue. -/
structure MediaState where
  now : Nat
  products : List Uuid
  images : Table ProductImage
  /-- The forms that were signed, and when. -/
  posts : List (PresignedPost × Nat)
  objects : String → Option Bytes
  events : List S3Record
  jobs : List (Job × TaskStage)

namespace MediaState

/-- Nothing is uploaded yet. -/
def start (products : List Uuid) : MediaState where
  now := 0
  products := products
  images := .empty
  posts := []
  objects := fun _ => none
  events := []
  jobs := []

/-- MinIO stores the object and sends an event. -/
def put (s : MediaState) (eventName key : String) (data : Bytes) : MediaState :=
  { s with
    objects := Function.update s.objects key (some data)
    events := ⟨eventName, .ofList (queryEscape key.toList)⟩ :: s.events }

/-- Storing an object changes its key alone. -/
@[simp] theorem objects_put (s : MediaState) (eventName key : String) (data : Bytes) :
    (s.put eventName key data).objects = Function.update s.objects key (some data) := rfl

/-- Whether a form that is still valid lets its holder post the data. -/
def accepts (s : MediaState) (key : String) (data : Bytes) : Bool :=
  s.posts.any fun (post, issued) => post.key = key ∧ s.now ≤ issued + post.expiresIn ∧
    post.contentLengthRange.1 ≤ data.length ∧ data.length ≤ post.contentLengthRange.2

/-- One step of a task: what becomes of the system, and of the task. -/
def advance (process : Bytes → Option Bytes) (s : MediaState) (job : Job) :
    TaskStage → Option Mishap → Option (MediaState × TaskStage)
  | .ended, _ => none
  | _, some .cancelled => some (s, .ended)
  | .queued, none => match s.objects job.objectKey with
      | some imageData => some (s, .read imageData)
      | none => some (s, .failed)
  | .read imageData, none => match process imageData with
      | some sanitizedData => some (s, .processed sanitizedData)
      | none => some (s, .failed)
  | .processed sanitizedData, none =>
      some (s.put "s3:ObjectCreated:Put" job.objectKey sanitizedData, .written)
  | .processed sanitizedData, some .lost =>
      some (s.put "s3:ObjectCreated:Put" job.objectKey sanitizedData, .failed)
  | .written, none => match s.images.get job.imageId with
      | some image => some (s, .activating image.status)
      | none => some (s, .ended)
  | .activating seen, none =>
      some ({ s with images := writeStatus s.images job.imageId seen .active }, .ended)
  | .activating seen, some .lost =>
      some ({ s with images := writeStatus s.images job.imageId seen .active }, .failed)
  | .failed, none => match s.images.get job.imageId with
      | some image => some (s, .failing image.status)
      | none => some (s, .ended)
  | .failed, some _ => some (s, .ended)
  | .failing seen, none | .failing seen, some .lost =>
      some ({ s with images := writeStatus s.images job.imageId seen .failed }, .ended)
  | .failing _, some .refused => some (s, .ended)
  | _, some _ => some (s, .failed)

inductive Move where
  /-- `create_upload_url` -/
  | createUploadUrl (imageId productId : Uuid) (req : ImageUploadRequest)
  /-- A signed form is posted. -/
  | upload (key : String) (data : Bytes)
  /-- The webhook gets to an event that MinIO has sent. -/
  | deliver (record : S3Record) (arqRedis : Bool)
  | work (n : Nat) (mishap : Option Mishap)
  | wait (seconds : Nat)
  deriving DecidableEq

def step (settings : MediaSettings) (process : Bytes → Option Bytes) : Machine MediaState Move
  | s, .createUploadUrl imageId productId req =>
      if imageId < 2 ^ 128 then
        match generateUploadUrl settings s.products s.images imageId productId req with
        | .ok (images, post) => some { s with images := images, posts := (post, s.now) :: s.posts }
        | .error _ => some s
      else none
  | s, .upload key data =>
      if s.accepts key data then some (s.put "s3:ObjectCreated:Post" key data) else none
  | s, .deliver record arqRedis =>
      if record ∈ s.events then
        match handleRecord s.images arqRedis record with
        | .ok (some job) => some { s with jobs := s.jobs ++ [(job, .queued)] }
        | _ => some s
      else none
  | s, .work n mishap => (s.jobs[n]?).bind fun (job, stage) =>
      (s.advance process job stage mishap).map fun (s', stage') =>
        { s' with jobs := s'.jobs.set n (job, stage') }
  | s, .wait seconds => some { s with now := s.now + seconds }

/-! ## Steps -/

/-- What one step makes of a task, and of the system. -/
inductive Advance (process : Bytes → Option Bytes) (s : MediaState) (job : Job)
    (mishap : Option Mishap) : TaskStage → MediaState → TaskStage → Prop
  | fetch {imageData} (object : s.objects job.objectKey = some imageData) :
      Advance process s job mishap .queued s (.read imageData)
  | process {imageData sanitizedData} (accepted : process imageData = some sanitizedData) :
      Advance process s job mishap (.read imageData) s (.processed sanitizedData)
  | put {sanitizedData stage} (next : stage = .written ∨ stage = .failed) :
      Advance process s job mishap (.processed sanitizedData)
        (s.put "s3:ObjectCreated:Put" job.objectKey sanitizedData) stage
  | select {image} (row : s.images.get job.imageId = some image) :
      Advance process s job mishap .written s (.activating image.status)
  | activate {seen stage} (next : stage = .ended ∨ stage = .failed ∧ mishap = some .lost) :
      Advance process s job mishap (.activating seen)
        { s with images := writeStatus s.images job.imageId seen .active } stage
  | raise {stage} (notEnded : stage ≠ .ended) : Advance process s job mishap stage s .failed
  | selectFailed {image} (row : s.images.get job.imageId = some image) :
      Advance process s job mishap .failed s (.failing image.status)
  | fail {seen} : Advance process s job mishap (.failing seen)
      { s with images := writeStatus s.images job.imageId seen .failed } .ended
  | stop {stage} (notEnded : stage ≠ .ended) : Advance process s job mishap stage s .ended

section
variable {settings : MediaSettings} {process : Bytes → Option Bytes} {s s' : MediaState}

/-- A task without a mishap advances by one stage. -/
theorem advance_undisturbed {job : Job} {stage stage' : TaskStage}
    (h : s.advance process job stage none = some (s', stage')) :
    Advance process s job none stage s' stage' := by
  cases stage with
  | ended => contradiction
  | queued =>
      simp only [advance] at h
      split at h
      · next imageData hobject =>
          obtain ⟨rfl, rfl⟩ := Prod.mk.inj (Option.some.inj h)
          exact .fetch hobject
      · obtain ⟨rfl, rfl⟩ := Prod.mk.inj (Option.some.inj h)
        exact .raise (by simp)
  | read imageData =>
      simp only [advance] at h
      split at h
      · next sanitizedData haccepted =>
          obtain ⟨rfl, rfl⟩ := Prod.mk.inj (Option.some.inj h)
          exact .process haccepted
      · obtain ⟨rfl, rfl⟩ := Prod.mk.inj (Option.some.inj h)
        exact .raise (by simp)
  | processed sanitizedData =>
      obtain ⟨rfl, rfl⟩ := Prod.mk.inj (Option.some.inj h)
      exact .put (.inl rfl)
  | written =>
      simp only [advance] at h
      split at h
      · next image hrow =>
          obtain ⟨rfl, rfl⟩ := Prod.mk.inj (Option.some.inj h)
          exact .select hrow
      · obtain ⟨rfl, rfl⟩ := Prod.mk.inj (Option.some.inj h)
        exact .stop (by simp)
  | activating seen =>
      obtain ⟨rfl, rfl⟩ := Prod.mk.inj (Option.some.inj h)
      exact .activate (.inl rfl)
  | failed =>
      simp only [advance] at h
      split at h
      · next image hrow =>
          obtain ⟨rfl, rfl⟩ := Prod.mk.inj (Option.some.inj h)
          exact .selectFailed hrow
      · obtain ⟨rfl, rfl⟩ := Prod.mk.inj (Option.some.inj h)
        exact .stop (by simp)
  | failing seen =>
      obtain ⟨rfl, rfl⟩ := Prod.mk.inj (Option.some.inj h)
      exact .fail

/-- How a task advances. -/
theorem advance_cases {job : Job} {mishap : Option Mishap} {stage stage' : TaskStage}
    (h : s.advance process job stage mishap = some (s', stage')) :
    Advance process s job mishap stage s' stage' := by
  cases mishap with
  | none => exact advance_undisturbed h
  | some mishap =>
      cases mishap with
      | refused =>
          cases stage <;> simp only [advance] at h <;> try contradiction
          all_goals obtain ⟨rfl, rfl⟩ := Prod.mk.inj (Option.some.inj h)
          all_goals first | exact .raise (by simp) | exact .stop (by simp)
      | cancelled =>
          cases stage <;> simp only [advance] at h <;> try contradiction
          all_goals
            obtain ⟨rfl, rfl⟩ := Prod.mk.inj (Option.some.inj h)
            exact .stop (by simp)
      | lost =>
          -- what the call writes stays, at three stages
          cases stage <;> simp only [advance] at h <;> try contradiction
          all_goals obtain ⟨rfl, rfl⟩ := Prod.mk.inj (Option.some.inj h)
          case processed => exact .put (.inr rfl)
          case activating => exact .activate (.inr ⟨rfl, rfl⟩)
          case failing => exact .fail
          all_goals first | exact .raise (by simp) | exact .stop (by simp)

/-- What one move makes of the system. -/
inductive Change (process : Bytes → Option Bytes) (s : MediaState) : Move → MediaState → Prop
  | register {imageId productId req post} (lt : imageId < 2 ^ 128)
      (fresh : s.images.get imageId = none)
      (signed : post.key = filePath productId imageId req.filename) :
      Change process s (.createUploadUrl imageId productId req) { s with
        images := s.images.insert (newImage productId imageId req) fresh
        posts := (post, s.now) :: s.posts }
  | skip {m} : Change process s m s
  | upload {key data} :
      Change process s (.upload key data) (s.put "s3:ObjectCreated:Post" key data)
  | enqueue {record image} (row : image ∈ s.images.rows)
      (path : image.filePath = objectKey record) (pending : image.status = .pending) :
      Change process s (.deliver record true)
        { s with jobs := s.jobs ++ [(⟨image.id, objectKey record⟩, .queued)] }
  | work {n job stage stage' mishap s'} (running : s.jobs[n]? = some (job, stage))
      (next : Advance process s job mishap stage s' stage') :
      Change process s (.work n mishap) { s' with jobs := s'.jobs.set n (job, stage') }
  | wait {seconds} : Change process s (.wait seconds) { s with now := s.now + seconds }

/-- How a move changes the state. -/
theorem change_of_step {m : Move} (h : step settings process s m = some s') :
    Change process s m s' := by
  cases m with
  | createUploadUrl imageId productId req =>
      simp only [step] at h
      split at h
      · next hlt =>
          split at h
          · next images post hurl =>
              obtain ⟨hkey, hfresh, rfl⟩ := generateUploadUrl_eq_ok hurl
              exact Option.some.inj h ▸ .register hlt hfresh hkey
          · exact Option.some.inj h ▸ .skip
      · contradiction
  | upload key data =>
      simp only [step] at h
      split at h
      · exact Option.some.inj h ▸ .upload
      · contradiction
  | deliver record arqRedis =>
      simp only [step] at h
      split at h
      · split at h
        · next job hrecord =>
            obtain ⟨hredis, image, hrow, hpath, hpending, rfl⟩ := handleRecord_eq_some hrecord
            rw [hredis]
            exact Option.some.inj h ▸ .enqueue hrow hpath hpending
        · exact Option.some.inj h ▸ .skip
      · contradiction
  | work n mishap =>
      simp only [step] at h
      obtain ⟨⟨job, stage⟩, hrunning, hadvance⟩ := Option.bind_eq_some_iff.mp h
      obtain ⟨⟨s₁, stage'⟩, hs, rfl⟩ := Option.map_eq_some_iff.mp hadvance
      exact .work hrunning (advance_cases hs)
  | wait seconds => exact Option.some.inj h ▸ .wait

/-- A machine that delivers each of the records gets through all of them. -/
theorem reaches_of_delivers {f : Machine MediaState Move} {arqRedis : Bool}
    {records : List S3Record} (h : ∀ jobs, ∀ record ∈ records, ∀ job,
      handleRecord s.images arqRedis record = .ok job →
      f { s with jobs := jobs } (.deliver record arqRedis) =
        some { s with jobs := jobs ++ job.toList.map fun job => (job, .queued) }) :
    f.Reaches (fun _ _ => True) s { s with
      jobs := s.jobs ++
        (handleRecords s.images arqRedis records).1.map fun job => (job, .queued) } := by
  induction records generalizing s with
  | nil =>
      rw [handleRecords, List.map_nil, List.append_nil]
      exact .refl
  | cons record records ih =>
      rw [handleRecords]
      cases hrecord : handleRecord s.images arqRedis record with
      | error e =>
          rw [List.map_nil, List.append_nil]
          exact .refl
      | ok job =>
          simp only [List.map_append]
          rw [← List.append_assoc]
          refine (Machine.Reaches.single trivial (h s.jobs record List.mem_cons_self job hrecord)).trans
            (ih ?_)
          exact fun jobs record' hrecord' => h jobs record' (List.mem_cons_of_mem record hrecord')

/-- A delivered record that is handled puts its jobs on the queue. -/
theorem step_deliver_of_handled {arqRedis : Bool} {record : S3Record} {job : Option Job}
    (hsent : record ∈ s.events) (h : handleRecord s.images arqRedis record = .ok job) :
    step settings process s (.deliver record arqRedis) =
      some { s with jobs := s.jobs ++ job.toList.map fun job => (job, .queued) } := by
  simp only [step, if_pos hsent, h]
  cases job with
  | none => simp
  | some job => rfl

/-- A run of the webhook is the delivery of its records, one after the other. -/
theorem reaches_webhook {arqRedis : Bool} {event : MinioWebhookEvent}
    (h : ∀ record ∈ event.records, record ∈ s.events) :
    (step settings process).Reaches (fun _ _ => True) s { s with
      jobs := s.jobs ++
        (handleMinioWebhook s.images arqRedis event).1.map fun job => (job, .queued) } :=
  reaches_of_delivers fun _ record hrecord _ hjob =>
    step_deliver_of_handled (h record hrecord) hjob

/-! ## Rows -/

/-- A step of a task writes the status that is pending, or no row. -/
theorem Advance.get_images {job : Job} {mishap : Option Mishap} {stage stage' : TaskStage}
    (h : Advance process s job mishap stage s' stage') (id : Uuid) :
    s'.images.get id = s.images.get id ∨
      id = job.imageId ∧ ∃ status, stage.pending = some status ∧
        s'.images.get id = (s.images.get id).map fun image => { image with status := status } := by
  cases h with
  | @activate seen _ next =>
      show (writeStatus s.images job.imageId seen .active).get id = _ ∨ _ ∧ ∃ status, _ ∧
        (writeStatus s.images job.imageId seen .active).get id = _
      rw [get_writeStatus]
      split
      · next h => exact .inr ⟨h.1, .active, by simp [TaskStage.pending, h.2], rfl⟩
      · exact .inl rfl
  | @fail seen =>
      show (writeStatus s.images job.imageId seen .failed).get id = _ ∨ _ ∧ ∃ status, _ ∧
        (writeStatus s.images job.imageId seen .failed).get id = _
      rw [get_writeStatus]
      split
      · next h => exact .inr ⟨h.1, .failed, by simp [TaskStage.pending, h.2], rfl⟩
      · exact .inl rfl
  | _ => exact .inl rfl

/-- A task that advances has not ended. -/
theorem Advance.notEnded {job : Job} {mishap : Option Mishap} {stage stage' : TaskStage}
    (h : Advance process s job mishap stage s' stage') : stage ≠ .ended := by
  cases h with
  | raise notEnded => exact notEnded
  | stop notEnded => exact notEnded
  | _ => simp

/-- A task's own advance does not change the queue. -/
theorem Advance.jobs {job : Job} {mishap : Option Mishap} {stage stage' : TaskStage}
    (h : Advance process s job mishap stage s' stage') : s'.jobs = s.jobs := by
  cases h <;> rfl

/-- A row stays as it is, is new, or gets the status that a task has pending. -/
inductive RowChange (s : MediaState) (m : Move) (id : Uuid) : Option ProductImage → Prop
  | same : RowChange s m id (s.images.get id)
  | new {image} (fresh : s.images.get id = none) (filed : Filed image)
      (pending : image.status = .pending) : RowChange s m id (some image)
  | decide {n mishap job stage status image} (move : m = .work n mishap)
      (running : s.jobs[n]? = some (job, stage)) (own : job.imageId = id)
      (pending : stage.pending = some status) (row : s.images.get id = some image) :
      RowChange s m id (some { image with status := status })

/-- What a move does to the row of an image. -/
theorem Change.row {m : Move} (h : Change process s m s') (id : Uuid) :
    RowChange s m id (s'.images.get id) := by
  cases h with
  | @register imageId productId req post lt fresh signed =>
      have hget := Table.get_insert (t := s.images) (r := newImage productId imageId req) fresh id
      show RowChange s _ id ((s.images.insert (newImage productId imageId req) fresh).get id)
      rw [hget]
      split
      · next hid => exact .new (hid ▸ fresh) (.newImage lt) rfl
      · exact .same
  | @work n job stage stage' mishap s₁ running next =>
      show RowChange s _ id (s₁.images.get id)
      cases next.get_images id with
      | inl hsame =>
          rw [hsame]
          exact .same
      | inr hwrite =>
          obtain ⟨rfl, status, hpending, hget⟩ := hwrite
          cases hrow : s.images.get job.imageId with
          | none =>
              rw [hrow, Option.map_none] at hget
              rw [hget, ← hrow]
              exact .same
          | some image =>
              rw [hrow, Option.map_some] at hget
              rw [hget]
              exact .decide rfl running rfl hpending hrow
  | _ => exact .same

/-- Rows are never removed, and keep their paths. -/
theorem Change.get_images {m : Move} (h : Change process s m s') {id : Uuid}
    {image : ProductImage} (himage : s.images.get id = some image) :
    ∃ image', s'.images.get id = some image' ∧ image'.filePath = image.filePath := by
  have hrow := h.row id
  generalize hget : s'.images.get id = found at hrow
  cases hrow with
  | same => exact ⟨image, himage, rfl⟩
  | new fresh filed pending => simp [fresh] at himage
  | decide move running own pending row =>
      rw [row] at himage
      obtain rfl := Option.some.inj himage
      exact ⟨_, rfl, rfl⟩

/-! ## Jobs -/

/-- Every job is for a row, and has the path of the row as its key. -/
def Enqueued (s : MediaState) : Prop :=
  ∀ w ∈ s.jobs, ∃ image, s.images.get w.1.imageId = some image ∧ image.filePath = w.1.objectKey

/-- A job goes on, or is new and for a pending image. -/
theorem Change.jobs {m : Move} (h : Change process s m s') {n : Nat} {w' : Job × TaskStage}
    (hw' : s'.jobs[n]? = some w') :
    (∃ w, s.jobs[n]? = some w ∧ w.1 = w'.1 ∧ (w'.2 ≠ .ended → w.2 ≠ .ended)) ∨
      n = s.jobs.length ∧ ∃ record image, m = .deliver record true ∧ image ∈ s.images.rows ∧
        image.filePath = objectKey record ∧ image.status = .pending ∧
        w' = (⟨image.id, objectKey record⟩, .queued) := by
  cases h with
  | @enqueue record image row path pending =>
      have hget : (s.jobs ++ [(⟨image.id, objectKey record⟩, .queued)])[n]? = some w' := hw'
      rw [List.getElem?_append] at hget
      split at hget
      · exact .inl ⟨w', hget, rfl, id⟩
      · rw [List.getElem?_singleton] at hget
        split at hget
        · obtain rfl := Option.some.inj hget
          exact .inr ⟨by omega, record, image, rfl, row, path, pending, rfl⟩
        · contradiction
  | @work k job stage stage' mishap s₁ running next =>
      have hget : (s₁.jobs.set k (job, stage'))[n]? = some w' := hw'
      rw [next.jobs, List.getElem?_set] at hget
      split at hget
      · next hindex =>
          subst hindex
          split at hget
          · obtain rfl := Option.some.inj hget
            exact .inl ⟨_, running, rfl, fun _ => next.notEnded⟩
          · contradiction
      · exact .inl ⟨w', hget, rfl, id⟩
  | _ => exact .inl ⟨w', hw', rfl, id⟩

/-- The jobs on the queue stay those of stored images. -/
theorem Enqueued.change {m : Move} (h : Enqueued s) (hs : Change process s m s') :
    Enqueued s' := by
  intro w' hw'
  obtain ⟨n, hn⟩ := List.mem_iff_getElem?.mp hw'
  have hrow : ∃ image, s.images.get w'.1.imageId = some image ∧
      image.filePath = w'.1.objectKey := by
    rcases hs.jobs hn with ⟨w, hw, hjob, -⟩ | ⟨-, record, image, -, hrow, hpath, -, rfl⟩
    · rw [← hjob]
      exact h w (List.mem_of_getElem? hw)
    · exact ⟨image, Table.get_of_mem hrow, hpath⟩
  obtain ⟨image, himage, hpath⟩ := hrow
  obtain ⟨image', himage', hpath'⟩ := hs.get_images himage
  exact ⟨image', himage', hpath'.trans hpath⟩

/-! ## Runs -/

/-- The rows stay filed under their own paths. -/
theorem Change.filed {m : Move} (h : Change process s m s')
    (hfiled : ∀ image ∈ s.images.rows, Filed image) : ∀ image ∈ s'.images.rows, Filed image := by
  intro image himage
  have hrow := h.row image.id
  rw [show s'.images.get image.id = some image from Table.get_of_mem himage] at hrow
  generalize hfound : some image = found at hrow
  cases hrow with
  | same => exact hfiled image (Table.mem_of_get hfound.symm)
  | new fresh filed pending =>
      obtain rfl := Option.some.inj hfound
      exact filed
  | decide move running own pending row =>
      obtain rfl := Option.some.inj hfound
      have hold := hfiled _ (Table.mem_of_get row)
      exact ⟨hold.id_lt, hold.filePath_eq⟩

/-- The event of a pending image enqueues a job for it. -/
theorem step_deliver {image : ProductImage} (hfiled : ∀ i ∈ s.images.rows, Filed i)
    (himage : image ∈ s.images.rows) (hpending : image.status = .pending)
    (hspace : ' ' ∉ image.filePath.toList) (hsent : uploaded image.filePath ∈ s.events) :
    step settings process s (.deliver (uploaded image.filePath) true) =
      some { s with jobs := s.jobs ++ [(⟨image.id, image.filePath⟩, .queued)] } := by
  have hfound := handleRecord_uploaded hfiled himage hpending hspace
  simp only [step, if_pos hsent, hfound]

end

/-! ## An upload -/

def lampSettings : MediaSettings where
  minioBucketName := "fairdrop-media"
  minFileSizeBytes := 1
  maxFileSizeBytes := 5242880
  presignedUrlExpireSeconds := 3600

def lamp : ProductImage := newImage 1 2 ⟨"lamp.png", "image/png"⟩

def lampPost : PresignedPost where
  bucket := "fairdrop-media"
  key := lamp.filePath
  contentType := "image/png"
  contentLengthRange := (1, 5242880)
  expiresIn := 3600

/-- Keeps the picture, which is the first byte, and drops what is behind it. -/
def dropMetadata (imageData : Bytes) : Option Bytes := imageData.head?.map fun b => [b]

/-- The row of the image is written and its form signed. -/
def lampSigned : MediaState :=
  { start [1] with images := ⟨[lamp], by simp⟩, posts := [(lampPost, 0)] }

/-- The image is uploaded with metadata. -/
def lampPosted : MediaState := lampSigned.put "s3:ObjectCreated:Post" lamp.filePath [7, 1]

/-- Its event was delivered `n` times. -/
def lampQueued (n : Nat) : MediaState :=
  { lampPosted with jobs := List.replicate n (⟨2, lamp.filePath⟩, .queued) }

section
variable {process : Bytes → Option Bytes} {ok : MediaState → Move → Prop}

/-- The lamp's upload is reached when these two moves are allowed. -/
theorem reaches_lampPosted (hok : ∀ s m, s.jobs = [] →
      (∀ image ∈ s.images.rows, image.status = .pending) → ok s m) :
    (step lampSettings process).Reaches ok (start [1]) (lampQueued 0) := by
  have hrows : ∀ image ∈ lampSigned.images.rows, image.status = .pending := by
    simp [lampSigned, lamp, newImage]
  have hsign : step lampSettings process (start [1])
      (.createUploadUrl 2 1 ⟨"lamp.png", "image/png"⟩) = some lampSigned := rfl
  have haccepts : lampSigned.accepts lamp.filePath [7, 1] := by
    simp [accepts, lampSigned, lampPost, start]
  have hpost : step lampSettings process lampSigned (.upload lamp.filePath [7, 1]) =
      some (lampQueued 0) := by
    simp only [step, if_pos haccepts]
    rfl
  exact (Machine.Reaches.single (hok _ _ rfl (by simp [start])) hsign).trans
    (.single (hok _ _ rfl hrows) hpost)

/-- Each delivery of the lamp's event puts one more job on the queue. -/
theorem step_lampQueued (n : Nat) :
    step lampSettings process (lampQueued n) (.deliver (uploaded lamp.filePath) true) =
      some (lampQueued (n + 1)) := by
  have hfiled : ∀ i ∈ (lampQueued n).images.rows, Filed i := by
    intro i hi
    rw [List.mem_singleton.mp hi]
    exact .newImage (by decide)
  have hspace : ' ' ∉ lamp.filePath.toList := space_not_mem_filePath.mpr (by decide)
  have hrow : lamp ∈ (lampQueued n).images.rows := List.mem_singleton_self lamp
  have hsent : uploaded lamp.filePath ∈ (lampQueued n).events := List.mem_singleton_self _
  rw [step_deliver hfiled hrow rfl hspace hsent]
  have hjobs : lampQueued (n + 1) = { lampQueued n with
      jobs := (lampQueued n).jobs ++ [(⟨lamp.id, lamp.filePath⟩, .queued)] } := by
    rw [lampQueued, List.replicate_succ']
    rfl
  rw [hjobs]

/-- The task goes through. -/
theorem reaches_lampActive (hok : ∀ s, ok s (.work 0 none)) : ∃ s,
    (step lampSettings dropMetadata).Reaches ok (lampQueued 1) s ∧
    ∃ image ∈ s.images.rows, image.status = .active := by
  have hexec : ((step lampSettings dropMetadata).exec (fun _ m => m = .work 0 none) (lampQueued 1)
      (List.replicate 5 (.work 0 none))).any
        (fun s => s.images.rows.any fun image => image.status = .active) := by decide +kernel
  have hwork : ∀ s m, decide (m = .work 0 none) = true → ok s m := by
    intro s m hm
    rw [of_decide_eq_true hm]
    exact hok s
  obtain ⟨s, hs, hend⟩ := Machine.Reaches.of_exec_any hwork hexec
  obtain ⟨image, himage, hactive⟩ := List.any_eq_true.mp hend
  exact ⟨s, hs, image, himage, of_decide_eq_true hactive⟩

end

end MediaState

end FairDrop
