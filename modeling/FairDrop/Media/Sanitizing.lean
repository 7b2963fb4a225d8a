import FairDrop.Media.Uploads

/-!
# FairDrop.Media.Sanitizing

What an active image serves.  A task looks at the object once, and the form of
an upload stays valid: who posts it again after the task has read the object
has unchecked bytes served.  As long as nobody does, the object of an active
image is an output of `_process_image_sync` (`active_sanitized`).
-/

namespace FairDrop

open RowStore

/-- The bytes are an output of `_process_image_sync`. -/
def Sanitized (process : Bytes → Option Bytes) (data : Bytes) : Prop :=
  ∃ imageData, process imageData = some data

/-- The task activates the image without another look at the object. -/
def TaskStage.Activates (stage : TaskStage) : Prop :=
  stage = .written ∨ stage.pending = some .active

namespace MediaState

/-- The object under `key` is sanitized. -/
def Serves (process : Bytes → Option Bytes) (s : MediaState) (key : String) : Prop :=
  ∃ data, s.objects key = some data ∧ Sanitized process data

/-- `key` is not the path of an active image, nor of one that a task activates. -/
def Unwatched (s : MediaState) (key : String) : Prop :=
  (∀ image ∈ s.images.rows, image.filePath = key → image.status ≠ .active) ∧
    ∀ w ∈ s.jobs, w.1.objectKey = key → ¬ w.2.Activates

/-- What is posted is sanitized already, or nobody counts on the object. -/
def PostsUnwatched (process : Bytes → Option Bytes) (s : MediaState) : Move → Prop
  | .upload key data => Sanitized process data ∨ s.Unwatched key
  | _ => True

/-- The objects of active images are sanitized, and so are those that tasks are
about to activate or to write. -/
structure Clean (process : Bytes → Option Bytes) (s : MediaState) : Prop where
  enqueued : s.Enqueued
  processed : ∀ job data, (job, .processed data) ∈ s.jobs → Sanitized process data
  activates : ∀ w ∈ s.jobs, w.2.Activates → s.Serves process w.1.objectKey
  active : ∀ id image, s.images.get id = some image → image.status = .active →
    s.Serves process image.filePath

section
variable {settings : MediaSettings} {process : Bytes → Option Bytes} {s s' : MediaState}

theorem Clean.start (products : List Uuid) : Clean process (start products) where
  enqueued := by simp [Enqueued, MediaState.start]
  processed := by simp [MediaState.start]
  activates := by simp [MediaState.start]
  active := by simp [MediaState.start, Table.empty, Table.get]

theorem serves_put (eventName : String) {key k : String} {data : Bytes}
    (hdata : Sanitized process data) (h : s.Serves process k) :
    (s.put eventName key data).Serves process k := by
  by_cases hkey : k = key
  · subst hkey
    exact ⟨data, Function.update_self _ _ _, hdata⟩
  · obtain ⟨old, hold, hsanitized⟩ := h
    refine ⟨old, ?_, hsanitized⟩
    rw [objects_put, Function.update_of_ne hkey]
    exact hold

/-- A watched object stays sanitized. -/
theorem Clean.serves {m : Move} {key : String} (h : Clean process s) (hs : Change process s m s')
    (hpost : PostsUnwatched process s m) (hwatched : ¬ s.Unwatched key)
    (hserves : s.Serves process key) : s'.Serves process key := by
  cases hs with
  | @upload key' data =>
      by_cases hkey : key = key'
      · subst hkey
        have hdata : Sanitized process data := hpost.resolve_right hwatched
        exact serves_put "s3:ObjectCreated:Post" hdata hserves
      · obtain ⟨old, hold, hsanitized⟩ := hserves
        refine ⟨old, ?_, hsanitized⟩
        rw [objects_put, Function.update_of_ne hkey]
        exact hold
  | work running next =>
      cases next with
      | @put data _ next =>
          have hdata := h.processed _ data (List.mem_of_getElem? running)
          exact serves_put "s3:ObjectCreated:Put" hdata hserves
      | _ => exact hserves
  | _ => exact hserves

theorem not_unwatched_of_job {w : Job × TaskStage} (hw : w ∈ s.jobs) (h : w.2.Activates) :
    ¬ s.Unwatched w.1.objectKey :=
  fun hunwatched => hunwatched.2 w hw rfl h

theorem not_unwatched_of_row {id : Uuid} {image : ProductImage}
    (himage : s.images.get id = some image) (h : image.status = .active) :
    ¬ s.Unwatched image.filePath :=
  fun hunwatched => hunwatched.1 image (Table.mem_of_get himage) rfl h

/-- A task's result is sanitized. -/
theorem Advance.processed {job : Job} {mishap : Option Mishap} {stage : TaskStage} {data : Bytes}
    (h : Advance process s job mishap stage s' (.processed data)) : Sanitized process data := by
  cases h with
  | process accepted => exact ⟨_, accepted⟩
  | put next => simp at next
  | activate next => simp at next

/-- A task that is about to activate was so before, or has just written. -/
theorem Advance.activates {job : Job} {mishap : Option Mishap} {stage stage' : TaskStage}
    (h : Advance process s job mishap stage s' stage') (hstage : stage'.Activates) :
    stage.Activates ∧ s' = s ∨
      ∃ data, stage = .processed data ∧ s' = s.put "s3:ObjectCreated:Put" job.objectKey data := by
  cases h with
  | @put data _ next => exact .inr ⟨data, rfl, rfl⟩
  | select row => exact .inl ⟨.inl rfl, rfl⟩
  | activate next =>
      rcases next with rfl | ⟨rfl, -⟩ <;> simp [TaskStage.Activates, TaskStage.pending] at hstage
  | _ => simp [TaskStage.Activates, TaskStage.pending] at hstage

/-- A result stays sanitized through every move. -/
theorem Clean.processed_change {m : Move} (h : Clean process s) (hs : Change process s m s') :
    ∀ job data, (job, .processed data) ∈ s'.jobs → Sanitized process data := by
  intro job data hjob
  cases hs with
  | enqueue row path pending =>
      cases List.mem_append.mp hjob with
      | inl hold => exact h.processed job data hold
      | inr hnew => simp at hnew
  | work running next =>
      cases List.mem_or_eq_of_mem_set hjob with
      | inl hold => exact h.processed job data (next.jobs ▸ hold)
      | inr hmoved =>
          obtain ⟨-, rfl⟩ := Prod.mk.inj hmoved
          exact next.processed
  | _ => exact h.processed job data hjob

/-- A task about to activate serves what is sanitized. -/
theorem Clean.activates_change {m : Move} (h : Clean process s) (hs : Change process s m s')
    (hpost : PostsUnwatched process s m) :
    ∀ w ∈ s'.jobs, w.2.Activates → s'.Serves process w.1.objectKey := by
  intro w hw hactivates
  have hold : w ∈ s.jobs → s'.Serves process w.1.objectKey := fun hw =>
    h.serves hs hpost (not_unwatched_of_job hw hactivates) (h.activates w hw hactivates)
  cases hs with
  | enqueue row path pending =>
      cases List.mem_append.mp hw with
      | inl hw => exact hold hw
      | inr hnew =>
          obtain rfl := List.mem_singleton.mp hnew
          simp [TaskStage.Activates, TaskStage.pending] at hactivates
  | work running next =>
      cases List.mem_or_eq_of_mem_set hw with
      | inl hw => exact hold (next.jobs ▸ hw)
      | inr hmoved =>
          subst hmoved
          have hrunning := List.mem_of_getElem? running
          rcases next.activates hactivates with ⟨hstage, rfl⟩ | ⟨data, rfl, rfl⟩
          · have hserves := h.activates _ hrunning hstage
            exact hserves
          · exact ⟨data, Function.update_self _ _ _, h.processed _ data hrunning⟩
  | _ => exact hold hw

/-- An active image serves what is sanitized. -/
theorem Clean.active_change {m : Move} (h : Clean process s) (hs : Change process s m s')
    (hpost : PostsUnwatched process s m) :
    ∀ id image, s'.images.get id = some image → image.status = .active →
      s'.Serves process image.filePath := by
  intro id image himage hactive
  have hrow := hs.row id
  rw [himage] at hrow
  generalize hfound : some image = found at hrow
  cases hrow with
  | same =>
      have hwatched := not_unwatched_of_row hfound.symm hactive
      exact h.serves hs hpost hwatched (h.active id image hfound.symm hactive)
  | new fresh filed pending =>
      obtain rfl := Option.some.inj hfound
      simp [pending] at hactive
  | @decide n mishap job stage status old move running own pending row =>
      -- the task has written the object, and nobody has posted over it since
      obtain rfl := Option.some.inj hfound
      obtain rfl : status = .active := hactive
      have hrunning := List.mem_of_getElem? running
      obtain ⟨image, himage, hpath⟩ := h.enqueued _ hrunning
      rw [own, row] at himage
      obtain rfl := Option.some.inj himage
      show s'.Serves process old.filePath
      rw [hpath]
      exact h.serves hs hpost (not_unwatched_of_job hrunning (.inr pending))
        (h.activates _ hrunning (.inr pending))

/-- A state stays clean through every move that posts no watched key. -/
theorem Clean.change {m : Move} (h : Clean process s) (hs : Change process s m s')
    (hpost : PostsUnwatched process s m) : Clean process s' :=
  ⟨h.enqueued.change hs, h.processed_change hs, h.activates_change hs hpost,
    h.active_change hs hpost⟩

/-- **Active images serve sanitized bytes** in every run in which nobody posts
anything else to the path of an active image, or of one that is activated. -/
theorem active_sanitized {products : List Uuid}
    (h : (step settings process).Reaches (PostsUnwatched process) (start products) s) :
    ∀ image ∈ s.images.rows, image.status = .active →
      ∃ data, s.objects image.filePath = some data ∧ Sanitized process data := by
  have hclean : Clean process s := by
    refine h.invariant (Clean process) (.start products) ?_
    exact fun s m s' hclean hpost hs => hclean.change (change_of_step hs) hpost
  intro image himage hactive
  exact hclean.active image.id image (Table.get_of_mem himage) hactive

end

/-! ## Two runs -/

theorem active_sanitized_lamp : ∃ s,
    (step lampSettings dropMetadata).Reaches (PostsUnwatched dropMetadata) (start [1]) s ∧
    ∃ image ∈ s.images.rows, image.status = .active ∧
      ∃ data, s.objects image.filePath = some data ∧ Sanitized dropMetadata data := by
  have hqueued : (step lampSettings dropMetadata).Reaches (PostsUnwatched dropMetadata)
      (start [1]) (lampQueued 1) := by
    have hdeliver : PostsUnwatched dropMetadata (lampQueued 0)
        (.deliver (uploaded lamp.filePath) true) := trivial
    refine (reaches_lampPosted fun s m hjobs hrows => ?_).trans
      (.single hdeliver (step_lampQueued 0))
    cases m with
    | upload key data =>
        refine .inr ⟨fun image himage _ => ?_, by simp [hjobs]⟩
        rw [hrows image himage]
        decide
    | _ => trivial
  have hwork : ∀ s, PostsUnwatched dropMetadata s (.work 0 none) := fun _ => trivial
  obtain ⟨s, hs, image, himage, hactive⟩ := reaches_lampActive hwork
  have hreaches := hqueued.trans hs
  exact ⟨s, hreaches, image, himage, hactive, active_sanitized hreaches image himage hactive⟩

/-- The form is posted again once the image is active. -/
theorem not_active_sanitized : ∃ s,
    (step lampSettings dropMetadata).Reaches (fun _ _ => True) (start [1]) s ∧
    ∃ image ∈ s.images.rows, image.status = .active ∧
      s.objects image.filePath = some [7, 1] ∧ ¬ Sanitized dropMetadata [7, 1] := by
  have hexec : ((step lampSettings dropMetadata).exec (fun _ _ => true) (lampQueued 1)
      (List.replicate 5 (.work 0 none) ++ [.upload lamp.filePath [7, 1]])).any
        (fun s => s.images.rows.any fun image =>
          image.status = .active ∧ s.objects image.filePath = some [7, 1]) := by decide +kernel
  have hqueued : (step lampSettings dropMetadata).Reaches (fun _ _ => True)
      (start [1]) (lampQueued 1) :=
    (reaches_lampPosted fun _ _ _ _ => trivial).trans (.single trivial (step_lampQueued 0))
  obtain ⟨s, hs, hend⟩ := Machine.Reaches.of_exec_any (fun _ _ _ => trivial) hexec
  obtain ⟨image, himage, hserved⟩ := List.any_eq_true.mp hend
  obtain ⟨hactive, hobject⟩ := of_decide_eq_true hserved
  refine ⟨s, hqueued.trans hs, image, himage, hactive, hobject, ?_⟩
  rintro ⟨imageData, himageData⟩
  obtain ⟨b, -, hb⟩ := Option.map_eq_some_iff.mp himageData
  simp at hb

end MediaState

end FairDrop
