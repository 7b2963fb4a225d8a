import FairDrop.Media.Uploads

/-!
# FairDrop.Media.Enqueuing

How often the webhook enqueues the task for an image, whatever records it is
sent.  It leaves the status of the image to the task: until that has written it,
every create event enqueues another one (`not_enqueued_once`), the event of the
task's own upload among them.
-/

namespace FairDrop

open RowStore

namespace MediaState

/-- As `step`, and the webhook takes any record, sent by MinIO or not. -/
def webhookStep (settings : MediaSettings) (process : Bytes → Option Bytes) :
    Machine MediaState Move
  | s, .deliver record arqRedis =>
      match handleRecord s.images arqRedis record with
      | .ok (some job) => some { s with jobs := s.jobs ++ [(job, .queued)] }
      | _ => some s
  | s, m => step settings process s m

/-- How many tasks were enqueued for the image. -/
def jobsOf (s : MediaState) (id : Uuid) : Nat := s.jobs.countP fun w => w.1.imageId = id

/-- The record is a create event for the path of an image that is pending. -/
structure Awaited (s : MediaState) (record : S3Record) (image : ProductImage) : Prop where
  created : "s3:ObjectCreated:".toList <+: record.eventName.toList
  row : image ∈ s.images.rows
  path : image.filePath = objectKey record
  pending : image.status = .pending

/-- No create event is handled for a pending image that has a task already. -/
def FirstEvent (s : MediaState) : Move → Prop
  | .deliver record arqRedis => arqRedis → ∀ image, s.Awaited record image → s.jobsOf image.id = 0
  | _ => True

section
variable {settings : MediaSettings} {process : Bytes → Option Bytes} {s s' : MediaState} {m : Move}

/-- Every step of the whole service is one of the webhook's. -/
theorem webhookStep_of_step (h : step settings process s m = some s') :
    webhookStep settings process s m = some s' := by
  cases m with
  | deliver record arqRedis =>
      simp only [step] at h
      split at h
      · exact h
      · contradiction
  | _ => exact h

/-- Any call of the webhook is the delivery of its records, one after the other. -/
theorem reaches_webhookCall (settings : MediaSettings) (process : Bytes → Option Bytes)
    (s : MediaState) (arqRedis : Bool) (event : MinioWebhookEvent) :
    (webhookStep settings process).Reaches (fun _ _ => True) s { s with
      jobs := s.jobs ++
        (handleMinioWebhook s.images arqRedis event).1.map fun job => (job, .queued) } := by
  refine reaches_of_delivers fun jobs record _ job hjob => ?_
  simp only [webhookStep, hjob]
  cases job with
  | none => simp
  | some job => rfl

/-- A record that is enqueued was awaited by its image. -/
theorem awaited_of_handleRecord {arqRedis : Bool} {record : S3Record} {job : Job}
    (h : handleRecord s.images arqRedis record = .ok (some job)) :
    arqRedis ∧ ∃ image, s.Awaited record image ∧ job = ⟨image.id, objectKey record⟩ := by
  have hcreated : "s3:ObjectCreated:".toList <+: record.eventName.toList := by
    by_contra hother
    rw [handleRecord, if_pos hother] at h
    simp at h
  obtain ⟨hredis, image, hrow, hpath, hpending, hjob⟩ := handleRecord_eq_some h
  exact ⟨hredis, image, ⟨hcreated, hrow, hpath, hpending⟩, hjob⟩

/-- A record that its image awaits is enqueued. -/
theorem handleRecord_awaited {record : S3Record} {image : ProductImage}
    (hfiled : ∀ i ∈ s.images.rows, Filed i) (h : s.Awaited record image) :
    handleRecord s.images true record = .ok (some ⟨image.id, objectKey record⟩) := by
  unfold handleRecord
  rw [← h.path, imageByPath_eq_some hfiled h.row, if_neg (not_not.mpr h.created)]
  simp only [bind, Except.bind, h.pending]
  rfl

/-- The webhook's steps change the state as the service's do. -/
theorem change_of_webhookStep (h : webhookStep settings process s m = some s') :
    Change process s m s' := by
  cases m with
  | deliver record arqRedis =>
      simp only [webhookStep] at h
      split at h
      · next job hrecord =>
          obtain ⟨hredis, image, hawaited, rfl⟩ := awaited_of_handleRecord hrecord
          rw [hredis]
          exact Option.some.inj h ▸ .enqueue hawaited.row hawaited.path hawaited.pending
      · exact Option.some.inj h ▸ .skip
  | _ => exact @change_of_step settings process s s' _ h

/-- In every state reached the rows are filed under their own paths. -/
theorem filed_of_reaches_webhook {ok : MediaState → Move → Prop} {products : List Uuid}
    (h : (webhookStep settings process).Reaches ok (start products) s) :
    ∀ image ∈ s.images.rows, Filed image := by
  refine h.invariant (fun s => ∀ image ∈ s.images.rows, Filed image) (by simp [start]) ?_
  exact fun s m s' hfiled _ hs => (change_of_webhookStep hs).filed hfiled

/-! ## Tasks of an image -/

/-- A job that gets another stage is still the same job. -/
theorem map_fst_set {job : Job} {stage stage' : TaskStage} {jobs : List (Job × TaskStage)} {n : Nat}
    (h : jobs[n]? = some (job, stage)) :
    (jobs.set n (job, stage')).map Prod.fst = jobs.map Prod.fst := by
  obtain ⟨hlt, hget⟩ := List.getElem?_eq_some_iff.mp h
  have hn : n < (jobs.map Prod.fst).length := by rwa [List.length_map]
  have hjob : (jobs.map Prod.fst)[n] = job := by simp [hget]
  rw [List.map_set]
  nth_rewrite 1 [← hjob]
  exact List.set_getElem_self _

/-- The jobs of an image, counted without their stages. -/
theorem jobsOf_eq (s : MediaState) (id : Uuid) :
    s.jobsOf id = (s.jobs.map Prod.fst).countP fun job => job.imageId = id := by
  rw [List.countP_map]
  rfl

/-- A new job on the queue counts for its image. -/
theorem jobsOf_enqueue (s : MediaState) (job : Job) (id : Uuid) :
    jobsOf { s with jobs := s.jobs ++ [(job, .queued)] } id =
      s.jobsOf id + if job.imageId = id then 1 else 0 := by
  simp [jobsOf, List.countP_append, List.countP_singleton]

/-- A move enqueues one task for an image, with an event that it awaits, or none. -/
theorem jobsOf_webhookStep (h : webhookStep settings process s m = some s') (id : Uuid) :
    s'.jobsOf id = s.jobsOf id ∨
      ∃ record image, m = .deliver record true ∧ s.Awaited record image ∧ image.id = id ∧
        s'.jobsOf id = s.jobsOf id + 1 := by
  cases m with
  | deliver record arqRedis =>
      simp only [webhookStep] at h
      split at h
      · next job hrecord =>
          obtain ⟨rfl, image, hawaited, rfl⟩ := awaited_of_handleRecord hrecord
          obtain rfl := Option.some.inj h
          by_cases hid : image.id = id
          · refine .inr ⟨record, image, rfl, hawaited, hid, ?_⟩
            rw [jobsOf_enqueue, if_pos hid]
          · rw [jobsOf_enqueue, if_neg hid]
            exact .inl rfl
      · exact .inl (Option.some.inj h ▸ rfl)
  | work n mishap =>
      cases change_of_webhookStep h with
      | skip => exact .inl rfl
      | @work _ job stage stage' _ s₁ running next =>
          refine .inl ?_
          rw [jobsOf_eq, jobsOf_eq]
          show ((s₁.jobs.set n (job, stage')).map Prod.fst).countP _ = _
          rw [next.jobs, map_fst_set running]
  | _ =>
      cases change_of_webhookStep h
      all_goals exact .inl rfl

/-- A step takes no job away. -/
theorem jobsOf_le_webhookStep (h : webhookStep settings process s m = some s') (id : Uuid) :
    s.jobsOf id ≤ s'.jobsOf id := by
  rcases jobsOf_webhookStep h id with hsame | ⟨_, _, _, _, _, hmore⟩ <;> omega

/-- A run takes no job away. -/
theorem jobsOf_mono {ok : MediaState → Move → Prop}
    (h : (webhookStep settings process).Reaches ok s s') (id : Uuid) :
    s.jobsOf id ≤ s'.jobsOf id := by
  refine h.invariant (fun s' => s.jobsOf id ≤ s'.jobsOf id) (Nat.le_refl _) ?_
  exact fun s₁ m s₂ hle _ hs => Nat.le_trans hle (jobsOf_le_webhookStep hs id)

/-- An event that an image awaits enqueues a task for it. -/
theorem jobsOf_awaited {record : S3Record} {image : ProductImage}
    (hfiled : ∀ i ∈ s.images.rows, Filed i) (hawaited : s.Awaited record image)
    (h : webhookStep settings process s (.deliver record true) = some s') :
    s'.jobsOf image.id = s.jobsOf image.id + 1 := by
  simp only [webhookStep, handleRecord_awaited hfiled hawaited] at h
  rw [← Option.some.inj h, jobsOf_enqueue, if_pos rfl]

/-- While only first events are delivered an image has one job at most. -/
theorem jobsOf_le_one {products : List Uuid}
    (h : (webhookStep settings process).Reaches FirstEvent (start products) s) (id : Uuid) :
    s.jobsOf id ≤ 1 := by
  refine h.invariant (fun s => s.jobsOf id ≤ 1) (by simp [jobsOf, start]) ?_
  intro s m s' hle hfirst hs
  rcases jobsOf_webhookStep hs id with hsame | ⟨record, image, rfl, hawaited, rfl, hmore⟩
  · omega
  · have hnone : s.jobsOf image.id = 0 := hfirst rfl image hawaited
    omega

/-- **An image is enqueued once** as long as no create event is handled for a
pending image that has a task already: at most once, and once if an event that
it awaited was handled with the queue available.  The first such event enqueues
it twice. -/
theorem enqueued_once {products : List Uuid}
    (h : (webhookStep settings process).Reaches FirstEvent (start products) s) :
    (∀ id, s.jobsOf id ≤ 1) ∧
    (∀ s₁ s₂ record image,
      (webhookStep settings process).Reaches FirstEvent (start products) s₁ →
      s₁.Awaited record image →
      webhookStep settings process s₁ (.deliver record true) = some s₂ →
      (webhookStep settings process).Reaches FirstEvent s₂ s → s.jobsOf image.id = 1) ∧
    (∀ m s', ¬ FirstEvent s m → webhookStep settings process s m = some s' →
      ∃ id, 2 ≤ s'.jobsOf id) := by
  refine ⟨jobsOf_le_one h, fun s₁ s₂ record image hs₁ hawaited hstep hs => ?_,
    fun m s' hsecond hstep => ?_⟩
  · have hmore := jobsOf_awaited (filed_of_reaches_webhook hs₁) hawaited hstep
    have hkept := jobsOf_mono hs image.id
    have hone := jobsOf_le_one h image.id
    omega
  · cases m with
    | deliver record arqRedis =>
        simp only [FirstEvent, Classical.not_forall] at hsecond
        obtain ⟨rfl, image, hawaited, hsome⟩ := hsecond
        have hmore := jobsOf_awaited (filed_of_reaches_webhook h) hawaited hstep
        exact ⟨image.id, by omega⟩
    | _ => exact absurd trivial hsecond

end

/-! ## The image of the lamp -/

/-- The lamp's image awaits its event. -/
theorem lamp_awaited (n : Nat) : (lampQueued n).Awaited (uploaded lamp.filePath) lamp where
  created := uploaded_created _
  row := List.mem_singleton_self lamp
  path := (objectKey_uploaded_eq_self.mpr (space_not_mem_filePath.mpr (by decide))).symm
  pending := rfl

/-- The lamp's upload is reached under a condition on empty queues. -/
theorem reaches_lampQueued_zero (process : Bytes → Option Bytes) (ok : MediaState → Move → Prop)
    (hok : ∀ s m, s.jobs = [] → ok s m) :
    (webhookStep lampSettings process).Reaches ok (start [1]) (lampQueued 0) :=
  (reaches_lampPosted fun s m hjobs _ => hok s m hjobs).mono
    fun _ _ _ hok hs => ⟨hok, webhookStep_of_step hs⟩

/-- The lamp is enqueued once. -/
theorem enqueued_once_lamp : (lampQueued 1).jobsOf lamp.id = 1 := by
  have hstart := reaches_lampQueued_zero dropMetadata FirstEvent fun s m hjobs => by
    cases m with
    | deliver record arqRedis => exact fun _ image _ => by simp [jobsOf, hjobs]
    | _ => trivial
  have hstep : webhookStep lampSettings dropMetadata (lampQueued 0)
      (.deliver (uploaded lamp.filePath) true) = some (lampQueued 1) :=
    webhookStep_of_step (step_lampQueued 0)
  have hfirst : FirstEvent (lampQueued 0) (.deliver (uploaded lamp.filePath) true) := by
    intro _ image _
    rfl
  exact (enqueued_once (hstart.trans (.single hfirst hstep))).2.1 _ _ _ _ hstart (lamp_awaited 0)
    hstep .refl

/-- The same record twice in one event is enqueued twice. -/
theorem handleMinioWebhook_twice {images : Table ProductImage} {arqRedis : Bool}
    {record : S3Record} {job : Job} (h : handleRecord images arqRedis record = .ok (some job)) :
    (handleMinioWebhook images arqRedis ⟨[record, record]⟩).1 = [job, job] := by
  simp only [handleMinioWebhook, handleRecords, h]
  rfl

/-- One event that lists a record twice enqueues the image twice. -/
theorem not_enqueued_once :
    ¬ ∀ s, (webhookStep lampSettings dropMetadata).Reaches (fun _ _ => True) (start [1]) s →
      ∀ id, s.jobsOf id ≤ 1 := by
  intro honce
  have hstart := reaches_lampQueued_zero dropMetadata (fun _ _ => True)
    fun _ _ _ => trivial
  have hcall := reaches_webhookCall lampSettings dropMetadata (lampQueued 0) true
    ⟨[uploaded lamp.filePath, uploaded lamp.filePath]⟩
  have hfiled : ∀ i ∈ (lampQueued 0).images.rows, Filed i := by
    intro i hi
    rw [List.mem_singleton.mp hi]
    exact .newImage (by decide)
  obtain ⟨job, hjob, hid⟩ : ∃ job, handleRecord (lampQueued 0).images true
      (uploaded lamp.filePath) = .ok (some job) ∧ job.imageId = lamp.id :=
    ⟨_, handleRecord_awaited hfiled (lamp_awaited 0), rfl⟩
  rw [handleMinioWebhook_twice hjob] at hcall
  have htwice := honce _ (hstart.trans hcall) lamp.id
  simp [jobsOf, lampQueued, hid] at htwice

end MediaState

end FairDrop
