import FairDrop.RowStore.Interleave

/-!
# What a program ends in

A program logic that follows the answers only.  `ends st P x Q` says that `x` ends
in a way that meets `Q` if every database that it reads meets `P`, whatever is
committed meanwhile and whichever statements fail.  It says nothing of locks
and writes, so it asks nothing of the other programs: it holds in every run
(`Run.ends`).
-/

namespace RowStore

variable {S D R V W E α β T : Type}

def ends (st : Store D R V W E) (P : D → Prop) : Prog S D R W E α → (Except E α → Prop) → Prop
  | .pure a, Q => Q (.ok a)
  | .fail e, Q => Q (.error e)
  | .lock _ k, Q | .read k, Q =>
      (∀ d, P d → ends st P (k (.ok d)) Q) ∧ ends st P (k (.error st.outage)) Q
  | .commit k, Q => ∀ x, ends st P (k x) Q
  | .write _ k, Q | .rollback k, Q | .setSession _ k, Q => ends st P k Q
  | .session k, Q => ∀ σ, ends st P (k σ) Q

/-- The program may fail; if it succeeds, its result meets `K`. -/
def Succeeds (K : α → Prop) (r : Except E α) : Prop := ∀ a, r = .ok a → K a

section
variable {st : Store D R V W E} {P : D → Prop} {K : α → Prop} {K' : β → Prop} {Q Q' : Except E α → Prop}
  {x : Prog S D R W E α} {f : α → Prog S D R W E β}

theorem succeeds_ok {a : α} : Succeeds (E := E) K (.ok a) ↔ K a := by
  simp [Succeeds]

theorem succeeds_error {e : E} : Succeeds K (.error e) := by
  simp [Succeeds]

/-- Weaker ends are ends too. -/
theorem ends_mono (h : ∀ r, Q r → Q' r) (hx : ends st P x Q) : ends st P x Q' := by
  induction x with
  | pure a | fail e => exact h _ hx
  | lock find k ih | read k ih =>
      exact ⟨fun d hd => ih _ (hx.1 d hd), ih _ hx.2⟩
  | commit k ih | session k ih => exact fun y => ih _ (hx y)
  | write w k ih | rollback k ih | setSession σ k ih => exact ih hx

/-- Nothing is asked of a program whose end does not matter. -/
theorem ends_anyhow (x : Prog S D R W E α) : ends st P x fun _ => True := by
  induction x with
  | pure a | fail e => trivial
  | lock find k ih | read k ih => exact ⟨fun d _ => ih _, ih _⟩
  | commit k ih | session k ih => exact fun y => ih _
  | write w k ih | rollback k ih | setSession σ k ih => exact ih

/-- A sequence meets its end condition if the first part ends where the second
can start; a failure of the first part is a failure of the whole. -/
theorem ends_bind {Q : Except E β → Prop}
    (h : ends st P x fun r => match r with
      | .ok a => ends st P (f a) Q
      | .error e => Q (.error e)) : ends st P (x >>= f) Q := by
  change ends st P (x.bind f) Q
  induction x with
  | pure a | fail e => exact h
  | lock find k ih | read k ih =>
      exact ⟨fun d hd => ih _ (h.1 d hd), ih _ h.2⟩
  | commit k ih | session k ih => exact fun y => ih _ (h y)
  | write w k ih | rollback k ih | setSession σ k ih => exact ih h

/-- A handled error ends in the handler. -/
theorem ends_tryCatch {h : E → Prog S D R W E α}
    (hx : ends st P x fun r => match r with
      | .ok a => Q (.ok a)
      | .error e => ends st P (h e) Q) : ends st P (tryCatch x h) Q := by
  change ends st P (x.catchFail h) Q
  induction x with
  | pure a | fail e => exact hx
  | lock find k ih | read k ih =>
      exact ⟨fun d hd => ih _ (hx.1 d hd), ih _ hx.2⟩
  | commit k ih | session k ih => exact fun y => ih _ (hx y)
  | write w k ih | rollback k ih | setSession σ k ih => exact ih hx

theorem ends_inSession (h : ends st P x Q) : ends st P (Prog.inSession x) Q := by
  apply ends_tryCatch
  apply ends_bind
  refine ends_mono (fun r hr => ?_) h
  cases r with
  | ok a => exact hr
  | error e => exact hr

/-! ## Success -/

/-- A select ends with a state, or fails. -/
theorem ends_select : ends st P (Prog.select : Prog S D R W E D) (Succeeds P) :=
  ⟨fun _ hd => succeeds_ok.mpr hd, succeeds_error⟩

theorem ends_selectForUpdate {find : D → Option R} :
    ends st P (Prog.selectForUpdate find : Prog S D R W E D) (Succeeds P) :=
  ⟨fun _ hd => succeeds_ok.mpr hd, succeeds_error⟩

theorem ends_ofExcept {y : Except E α} : ends st P (Prog.ofExcept y : Prog S D R W E α) (y = ·) := by
  cases y <;> exact rfl

theorem ends_throw (e : E) : ends st P (throw e : Prog S D R W E α) (Succeeds K) :=
  succeeds_error

theorem ends_pure {a : α} (h : K a) : ends st P (pure a : Prog S D R W E α) (Succeeds K) :=
  succeeds_ok.mpr h

/-- What succeeds with more succeeds with less. -/
theorem ends_weaken {L : α → Prop} (h : ∀ a, K a → L a) (hx : ends st P x (Succeeds K)) :
    ends st P x (Succeeds L) :=
  ends_mono (fun _ hr a ha => h a (hr a ha)) hx

/-- The rest of a sequence may rely on what the first part has come to. -/
theorem ends_then (hx : ends st P x (Succeeds K)) (hf : ∀ a, K a → ends st P (f a) (Succeeds K')) :
    ends st P (x >>= f) (Succeeds K') := by
  refine ends_bind (ends_mono (fun r hr => ?_) hx)
  cases r with
  | ok a => exact hf a (succeeds_ok.mp hr)
  | error e => exact succeeds_error

/-- The rest of a sequence does not rely on the first part. -/
theorem ends_next (hf : ∀ a, ends st P (f a) (Succeeds K')) : ends st P (x >>= f) (Succeeds K') :=
  ends_then (K := fun _ => True) (ends_mono (fun _ _ _ _ => trivial) (ends_anyhow x)) fun a _ => hf a

/-- A check has passed if the program goes on. -/
theorem ends_check {y : Except E α} (hf : ∀ a, y = .ok a → ends st P (f a) (Succeeds K')) :
    ends st P (Prog.ofExcept y >>= f) (Succeeds K') :=
  ends_then (ends_mono (fun _ hr _ ha => hr.trans ha) ends_ofExcept) hf

theorem ends_map {g : α → β} (hx : ends st P x (Succeeds fun a => K' (g a))) :
    ends st P (g <$> x) (Succeeds K') :=
  ends_then hx fun _ ha => ends_pure ha

end

/-! ## Runs -/

/-- `t` is about to read. -/
def Sys.Reads (s : Sys S D R W E α T) (t : T) : Prop :=
  match (s.proc t).prog with
  | .lock _ _ | .read _ => True
  | _ => False

/-- How a program has ended. -/
theorem Sys.ended_of_ends {st : Store D R V W E} {P : D → Prop} {Q : Except E α → Prop}
    {s : Sys S D R W E α T} {t : T} {r : Except E α} (h : RowStore.ends st P (s.proc t).prog Q)
    (hended : s.ended t = some r) : Q r := by
  rw [Sys.prog_of_ended hended] at h
  cases r <;> exact h

section
variable [DecidableEq T] [DecidableEq R] {st : Store D R V W E} {P : D → Prop}
  {Q : Except E α → Prop} {ok : Sys S D R W E α T → T → Prop} {t : T} {s s' : Sys S D R W E α T}
  {evs : List (Event D W T)} {d : D} {q : T → Prog S D R W E α × S}

/-- A step of a program that meets `P` if it reads. -/
theorem ends_step {c : Option (List W)} {fault : Bool} (h : ends st P (s.proc t).prog Q)
    (hread : s.Reads t → P s.db) (hs : s.step st t fault = some (c, s')) :
    ends st P (s'.proc t).prog Q := by
  unfold Sys.Reads at hread
  cases Sys.steps hs with
  | lock hp | grant hp | read hp =>
      rw [hp] at h hread
      rw [Sys.proc_resume]
      exact h.1 _ (hread trivial)
  | lockFails hp | readFails hp =>
      rw [hp] at h
      rw [Sys.proc_abort]
      exact h.2
  | commit hp =>
      rw [hp] at h
      rw [Sys.proc_commit]
      exact h (.ok ())
  | commitRefused hp | commitFails hp =>
      rw [hp] at h
      rw [Sys.proc_abort]
      exact h _
  | rollback hp =>
      rw [hp] at h
      rw [Sys.proc_abort]
      exact h
  | session hp =>
      rw [hp] at h
      rw [Sys.proc_resume]
      exact h _
  | write hp | setSession hp =>
      rw [hp] at h
      rw [Sys.proc_resume]
      exact h

/-- **Runs end as their programs do**, if what `t` reads in them meets `P`. -/
theorem Run.ends (hstart : ends st P (q t).1 Q) (h : Run st ok (.start d q) evs s)
    (hread : ∀ ev ∈ evs, ev.txn = t → ∀ s₁, s₁.db = ev.before → ok s₁ t → s₁.Reads t →
      P ev.before) : ends st P (s.proc t).prog Q := by
  induction h with
  | nil => exact hstart
  | @snoc evs s u fault c s' _ hok hs ih =>
      have hrest := ih fun ev hmem => hread ev (by simp [hmem])
      by_cases htu : t = u
      · subst htu
        exact ends_step hrest (hread ⟨t, c, s.db, s'.db⟩ (by simp) rfl s rfl hok) hs
      · rw [(step_other htu hs).1]
        exact hrest

end

end RowStore
