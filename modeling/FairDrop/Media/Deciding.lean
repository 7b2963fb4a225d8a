import FairDrop.Media.Uploads

/-!
# FairDrop.Media.Deciding

How often an image is decided.  The webhook leaves the status of the image as
it is, and the task writes its status whatever the row says: two tasks for one
image decide it twice.  As long as no event is delivered while a task for its
key is under way, there is only one (`Single`), and it decides a pending image
(`decided_once`).
-/

namespace FairDrop

open RowStore

namespace MediaState

/-- No image has changed but those that were pending. -/
def DecidedOnce (s s' : MediaState) : Prop :=
  ∀ image ∈ s.images.rows, ∃ image' ∈ s'.images.rows, image'.id = image.id ∧
    (image'.status = image.status ∨
      image.status = .pending ∧ (image'.status = .active ∨ image'.status = .failed))

/-- No event is delivered while a task for its key is under way, and no commit
that activates an image is reported as a failure. -/
def OneAtATime (s : MediaState) : Move → Prop
  | .deliver record arqRedis =>
      arqRedis → ∀ w ∈ s.jobs, w.1.objectKey = objectKey record → w.2 = .ended
  | .work n mishap => mishap = some .lost → ∀ job seen, s.jobs[n]? ≠ some (job, .activating seen)
  | _ => True

/-- The task `n` does `job`, and is not at its end. -/
def UnderWay (s : MediaState) (n : Nat) (job : Job) : Prop :=
  ∃ stage, s.jobs[n]? = some (job, stage) ∧ stage ≠ .ended

/-- A task that is under way is the only one for its image, which is pending. -/
structure Single (s : MediaState) : Prop where
  enqueued : s.Enqueued
  pending : ∀ n job, s.UnderWay n job →
    ∃ image, s.images.get job.imageId = some image ∧ image.status = .pending
  apart : ∀ n k job job', s.UnderWay n job → s.UnderWay k job' →
    job.imageId = job'.imageId → n = k

theorem DecidedOnce.refl (s : MediaState) : DecidedOnce s s :=
  fun image himage => ⟨image, himage, rfl, .inl rfl⟩

theorem DecidedOnce.trans {a b c : MediaState} (h : DecidedOnce a b) (h' : DecidedOnce b c) :
    DecidedOnce a c := by
  intro image himage
  obtain ⟨image', himage', hid, hstatus⟩ := h image himage
  obtain ⟨image'', himage'', hid', hstatus'⟩ := h' image' himage'
  refine ⟨image'', himage'', hid'.trans hid, ?_⟩
  rcases hstatus with hsame | ⟨hpending, hdecided⟩
  · rw [← hsame]
    exact hstatus'
  · rcases hstatus' with hsame' | ⟨hpending', -⟩
    · rw [hsame']
      exact .inr ⟨hpending, hdecided⟩
    · simp [hpending'] at hdecided

section
variable {settings : MediaSettings} {process : Bytes → Option Bytes} {s s' : MediaState}

theorem Single.start (products : List Uuid) : Single (start products) where
  enqueued := by simp [Enqueued, MediaState.start]
  pending := by simp [UnderWay, MediaState.start]
  apart := by simp [UnderWay, MediaState.start]

/-- A task that is under way was so before, or is new. -/
theorem Change.underWay {m : Move} (hs : Change process s m s') {n : Nat} {job : Job}
    (h : s'.UnderWay n job) : s.UnderWay n job ∨
      n = s.jobs.length ∧ ∃ record image, m = .deliver record true ∧ image ∈ s.images.rows ∧
        image.filePath = objectKey record ∧ image.status = .pending ∧
        job = ⟨image.id, objectKey record⟩ := by
  obtain ⟨stage', hn, hopen⟩ := h
  rcases hs.jobs hn with ⟨⟨job, stage⟩, hold, rfl, hgoes⟩ | ⟨hlast, record, image, hnew⟩
  · exact .inl ⟨stage, hold, hgoes hopen⟩
  · obtain ⟨hmove, hrow, hpath, hpending, hpair⟩ := hnew
    exact .inr ⟨hlast, record, image, hmove, hrow, hpath, hpending, (Prod.mk.inj hpair).1⟩

/-- A task that goes on has not written its row. -/
theorem Advance.images_eq {job : Job} {mishap : Option Mishap} {stage stage' : TaskStage}
    (h : Advance process s job mishap stage s' stage') (hstage : stage' ≠ .ended)
    (hlost : mishap = some .lost → ∀ seen, stage ≠ .activating seen) : s'.images = s.images := by
  cases h with
  | activate next =>
      rcases next with hover | ⟨-, hmishap⟩
      · exact absurd hover hstage
      · exact absurd rfl (hlost hmishap _)
  | fail => exact absurd rfl hstage
  | _ => rfl

/-- A pending row stays pending if no task for it writes. -/
theorem Change.pending {m : Move} (hs : Change process s m s') {id : Uuid} {image : ProductImage}
    (himage : s.images.get id = some image) (hpending : image.status = .pending)
    (hother : ∀ n mishap job, m = .work n mishap → s.UnderWay n job → job.imageId ≠ id) :
    ∃ image', s'.images.get id = some image' ∧ image'.status = .pending := by
  have hrow := hs.row id
  generalize hfound : s'.images.get id = found at hrow
  cases hrow with
  | same => exact ⟨image, himage, hpending⟩
  | new fresh filed pending => simp [fresh] at himage
  | @decide n mishap job stage status old move running own pending row =>
      have hopen := TaskStage.ne_ended_of_pending pending
      exact absurd own (hother n mishap job move ⟨stage, running, hopen⟩)

/-- The row of a task that goes on is still pending. -/
theorem Single.pending_change {m : Move} (h : Single s) (hs : Change process s m s')
    (hone : OneAtATime s m) {n : Nat} {job : Job} (hold : s.UnderWay n job)
    (hnew : s'.UnderWay n job) :
    ∃ image, s'.images.get job.imageId = some image ∧ image.status = .pending := by
  obtain ⟨image, himage, hpending⟩ := h.pending n job hold
  by_cases hmine : ∃ mishap, m = .work n mishap
  · -- its own step: a task that goes on has written nothing
    obtain ⟨mishap, rfl⟩ := hmine
    obtain ⟨stage', hn, hopen⟩ := hnew
    cases hs with
    | skip => exact ⟨image, himage, hpending⟩
    | @work _ job' stage stage'' _ s₁ running next =>
        have hget : (s₁.jobs.set n (job', stage''))[n]? = some (job, stage') := hn
        rw [List.getElem?_set, if_pos rfl] at hget
        split at hget
        · obtain ⟨rfl, rfl⟩ := Prod.mk.inj (Option.some.inj hget)
          have himages : s₁.images = s.images := by
            refine next.images_eq hopen fun hlost seen hstage => ?_
            exact hone hlost job' seen (hstage ▸ running)
          exact ⟨image, himages ▸ himage, hpending⟩
        · contradiction
  · -- the step of another task: not one for the same image
    refine hs.pending himage hpending fun k mishap job' hmove hunder hid => ?_
    have hindex := h.apart k n job' job hunder hold hid
    exact hmine ⟨mishap, hindex ▸ hmove⟩

/-- An image gets a new task only if it has none. -/
theorem Single.no_second (h : Single s) {record : S3Record} {image : ProductImage}
    (hone : OneAtATime s (.deliver record true)) (hrow : image ∈ s.images.rows)
    (hpath : image.filePath = objectKey record) {n : Nat} {job : Job} (hold : s.UnderWay n job) :
    job.imageId ≠ image.id := by
  intro hid
  obtain ⟨stage, hn, hopen⟩ := hold
  have hjob := List.mem_of_getElem? hn
  obtain ⟨image', himage', hkey⟩ := h.enqueued _ hjob
  have hsame : some image' = some image := by
    rw [← himage', ← Table.get_of_mem hrow, hid]
    rfl
  obtain rfl := Option.some.inj hsame
  exact hopen (hone rfl _ hjob (hkey.symm.trans hpath))

theorem Single.change {m : Move} (h : Single s) (hs : Change process s m s')
    (hone : OneAtATime s m) : Single s' where
  enqueued := h.enqueued.change hs
  pending := by
    intro n job hunder
    rcases hs.underWay hunder with hold | ⟨-, record, image, rfl, hrow, -, hpending, rfl⟩
    · exact h.pending_change hs hone hold hunder
    · refine hs.pending (Table.get_of_mem hrow) hpending fun k mishap job' hmove => ?_
      simp at hmove
  apart := by
    intro n k job job' hn hk hid
    rcases hs.underWay hn with hold | ⟨hlast, record, image, rfl, hrow, hpath, -, rfl⟩
    · rcases hs.underWay hk with hold' | ⟨-, record, image, rfl, hrow, hpath, -, rfl⟩
      · exact h.apart n k job job' hold hold' hid
      · exact absurd hid (h.no_second hone hrow hpath hold)
    · rcases hs.underWay hk with hold' | ⟨hlast', -⟩
      · exact absurd hid.symm (h.no_second hone hrow hpath hold')
      · rw [hlast, hlast']

/-- One move decides pending images only. -/
theorem Single.decidedOnce {m : Move} (h : Single s) (hs : Change process s m s') :
    DecidedOnce s s' := by
  intro image himage
  have hget : s.images.get image.id = some image := Table.get_of_mem himage
  have hrow := hs.row image.id
  generalize hfound : s'.images.get image.id = found at hrow
  cases hrow with
  | same => exact ⟨image, Table.mem_of_get (hfound.trans hget), rfl, .inl rfl⟩
  | new fresh filed pending => simp [fresh] at hget
  | @decide n mishap job stage status old move running own pending row =>
      rw [hget] at row
      obtain rfl := Option.some.inj row
      have hopen := TaskStage.ne_ended_of_pending pending
      obtain ⟨image', himage', hpending⟩ := h.pending n job ⟨stage, running, hopen⟩
      rw [own, hget] at himage'
      obtain rfl := Option.some.inj himage'
      refine ⟨_, Table.mem_of_get hfound, rfl, .inr ⟨hpending, ?_⟩⟩
      exact stage.pending_eq_some pending

/-- **An image is decided once** in every run in which no event is delivered
while a task for its key is under way. -/
theorem decided_once {products : List Uuid}
    (h : (step settings process).Reaches OneAtATime (start products) s)
    (h' : (step settings process).Reaches OneAtATime s s') : DecidedOnce s s' := by
  have hstep : ∀ s m s', Single s → OneAtATime s m → step settings process s m = some s' →
      Single s' ∧ DecidedOnce s s' := by
    intro s m s' hsingle hone hs
    have hchange := change_of_step hs
    exact ⟨hsingle.change hchange hone, hsingle.decidedOnce hchange⟩
  have hsingle : Single s :=
    h.invariant Single (.start products) fun s m s' hs hone hm => (hstep s m s' hs hone hm).1
  exact h'.since .refl (fun _ _ _ => .trans) hsingle hstep

end

/-! ## Two runs -/

theorem decided_once_lamp : ∃ s s',
    (step lampSettings dropMetadata).Reaches OneAtATime (start [1]) s ∧
    (step lampSettings dropMetadata).Reaches OneAtATime s s' ∧
    (∃ image ∈ s'.images.rows, image.status = .active) ∧ DecidedOnce s s' := by
  have hqueued : (step lampSettings dropMetadata).Reaches OneAtATime (start [1])
      (lampQueued 1) := by
    have hdeliver : OneAtATime (lampQueued 0) (.deliver (uploaded lamp.filePath) true) := by
      simp [OneAtATime, lampQueued]
    refine (reaches_lampPosted fun s m hjobs _ => ?_).trans (.single hdeliver (step_lampQueued 0))
    cases m <;> simp [OneAtATime, hjobs]
  have hwork : ∀ s, OneAtATime s (.work 0 none) := by simp [OneAtATime]
  obtain ⟨s', hs', hactive⟩ := reaches_lampActive hwork
  exact ⟨lampQueued 1, s', hqueued, hs', hactive, decided_once hqueued hs'⟩

theorem not_decidedOnce {image : ProductImage} {s s' : MediaState} (himage : image ∈ s.images.rows)
    (hdecided : image.status ≠ .pending)
    (hchanged : ∀ image' ∈ s'.images.rows, image'.status ≠ image.status) : ¬ DecidedOnce s s' := by
  intro h
  obtain ⟨image', himage', -, hsame | ⟨hpending, -⟩⟩ := h image himage
  · exact hchanged image' himage' hsame
  · exact hdecided hpending

/-- The second task cannot read the object that the first has activated. -/
def failingLate : List Move := [.work 1 (some .refused), .work 1 none, .work 1 none]

theorem not_decided_once : ∃ s s',
    (step lampSettings dropMetadata).Reaches (fun _ _ => True) (start [1]) s ∧
    (step lampSettings dropMetadata).Reaches (fun _ _ => True) s s' ∧
    (∃ image ∈ s.images.rows, image.status = .active) ∧
    (∃ image ∈ s'.images.rows, image.status = .failed) ∧ ¬ DecidedOnce s s' := by
  have hqueued : (step lampSettings dropMetadata).Reaches (fun _ _ => True) (start [1])
      (lampQueued 2) :=
    ((reaches_lampPosted fun _ _ _ _ => trivial).trans (.single trivial (step_lampQueued 0))).trans
      (.single trivial (step_lampQueued 1))
  have hexec : ((step lampSettings dropMetadata).exec (fun _ _ => true) (lampQueued 2)
      (List.replicate 5 (.work 0 none))).any (fun s =>
        (s.images.rows.any fun image => image.status = .active) &&
        ((step lampSettings dropMetadata).exec (fun _ _ => true) s failingLate).any fun s' =>
          (s'.images.rows.any fun image => image.status = .failed) &&
          s'.images.rows.all fun image => image.status ≠ .active) := by decide +kernel
  obtain ⟨s, hs, hend⟩ := Machine.Reaches.of_exec_any (fun _ _ _ => trivial) hexec
  obtain ⟨hactive, hlate⟩ := (Bool.and_eq_true _ _).mp hend
  obtain ⟨s', hs', hend'⟩ := Machine.Reaches.of_exec_any (fun _ _ _ => trivial) hlate
  obtain ⟨hfailed, hnone⟩ := (Bool.and_eq_true _ _).mp hend'
  obtain ⟨image, himage, hstatus⟩ := List.any_eq_true.mp hactive
  obtain ⟨image', himage', hstatus'⟩ := List.any_eq_true.mp hfailed
  have hstatus := of_decide_eq_true hstatus
  refine ⟨s, s', hqueued.trans hs, hs', ⟨image, himage, hstatus⟩,
    ⟨image', himage', of_decide_eq_true hstatus'⟩, ?_⟩
  refine not_decidedOnce himage (by simp [hstatus]) fun image'' himage'' => ?_
  rw [hstatus]
  exact of_decide_eq_true (List.all_eq_true.mp hnone image'' himage'')

end MediaState

end FairDrop
