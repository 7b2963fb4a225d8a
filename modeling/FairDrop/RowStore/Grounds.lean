import FairDrop.RowStore.Part

/-!
# What writes rest on

A program logic for why a program writes what it writes.  `grounds J x seen Q`
says that each write `w` of `x` is one that `J seen w` allows, where `seen` are
the databases that the program has read until then, and that `x` ends in a way
that meets `Q`.  It asks nothing of the other programs; in a run it gives every
committed write a reason in the databases that its own program had read before
(`Run.grounded`).
-/

namespace RowStore

variable {S D D' R V W W' E α β T : Type}

def grounds (J : List D → W → Prop) :
    Prog S D R W E α → List D → (Except E α → List D → Prop) → Prop
  | .pure a, seen, Q => Q (.ok a) seen
  | .fail e, seen, Q => Q (.error e) seen
  | .lock _ k, seen, Q | .read k, seen, Q =>
      (∀ d, grounds J (k (.ok d)) (d :: seen) Q) ∧ ∀ e, grounds J (k (.error e)) seen Q
  | .write w k, seen, Q => J seen w ∧ grounds J k seen Q
  | .commit k, seen, Q => ∀ x, grounds J (k x) seen Q
  | .rollback k, seen, Q | .setSession _ k, seen, Q => grounds J k seen Q
  | .session k, seen, Q => ∀ s, grounds J (k s) seen Q

section
variable {J : List D → W → Prop} {x : Prog S D R W E α} {f : α → Prog S D R W E β}
  {seen : List D} {Q Q' : Except E α → List D → Prop}

/-- Weaker ends have the same grounds. -/
theorem grounds_mono (h : ∀ r l, Q r l → Q' r l) (hx : grounds J x seen Q) :
    grounds J x seen Q' := by
  induction x generalizing seen with
  | pure a | fail e => exact h _ _ hx
  | lock find k ih | read k ih => exact ⟨fun d => ih _ (hx.1 d), fun e => ih _ (hx.2 e)⟩
  | write w k ih => exact ⟨hx.1, ih hx.2⟩
  | commit k ih | session k ih => exact fun y => ih _ (hx y)
  | rollback k ih | setSession σ k ih => exact ih hx

/-- What has been seen stays so. -/
theorem grounds_grows (hx : grounds J x seen Q) :
    grounds J x seen fun r l => Q r l ∧ seen <:+ l := by
  induction x generalizing seen with
  | pure a | fail e => exact ⟨hx, List.suffix_refl seen⟩
  | lock find k ih | read k ih =>
      refine ⟨fun d => grounds_mono (fun r l h => ?_) (ih _ (hx.1 d)), fun e => ih _ (hx.2 e)⟩
      exact ⟨h.1, (List.suffix_cons d seen).trans h.2⟩
  | write w k ih => exact ⟨hx.1, ih hx.2⟩
  | commit k ih | session k ih => exact fun y => ih _ (hx y)
  | rollback k ih | setSession σ k ih => exact ih hx

/-! ## Rules for the program constructs -/

/-- A sequence has its grounds part by part. -/
theorem grounds_bind {Q : Except E β → List D → Prop}
    (h : grounds J x seen fun r l => match r with
      | .ok a => grounds J (f a) l Q
      | .error e => Q (.error e) l) : grounds J (x >>= f) seen Q := by
  change grounds J (x.bind f) seen Q
  induction x generalizing seen with
  | pure a | fail e => exact h
  | lock find k ih | read k ih => exact ⟨fun d => ih _ (h.1 d), fun e => ih _ (h.2 e)⟩
  | write w k ih => exact ⟨h.1, ih h.2⟩
  | commit k ih | session k ih => exact fun y => ih _ (h y)
  | rollback k ih | setSession σ k ih => exact ih h

/-- A handled error has its grounds in the handler. -/
theorem grounds_tryCatch {h : E → Prog S D R W E α}
    (hx : grounds J x seen fun r l => match r with
      | .ok a => Q (.ok a) l
      | .error e => grounds J (h e) l Q) : grounds J (tryCatch x h) seen Q := by
  change grounds J (x.catchFail h) seen Q
  induction x generalizing seen with
  | pure a | fail e => exact hx
  | lock find k ih | read k ih => exact ⟨fun d => ih _ (hx.1 d), fun e => ih _ (hx.2 e)⟩
  | write w k ih => exact ⟨hx.1, ih hx.2⟩
  | commit k ih | session k ih => exact fun y => ih _ (hx y)
  | rollback k ih | setSession σ k ih => exact ih hx

/-- A session has the grounds of what it runs. -/
theorem grounds_inSession (hx : grounds J x seen Q) : grounds J (Prog.inSession x) seen Q := by
  apply grounds_tryCatch
  apply grounds_bind
  refine grounds_mono (fun r l hr => ?_) hx
  cases r with
  | ok a => exact hr
  | error e => exact hr

/-! ## Success

Rules for programs of which only the success matters. -/

/-- The program may fail; if it succeeds, its result and what it has seen meet `K`. -/
def SucceedsSeeing (K : α → List D → Prop) (r : Except E α) (l : List D) : Prop :=
  ∀ a, r = .ok a → K a l

variable {K : α → List D → Prop} {K' : β → List D → Prop}

/-- A program that ends well is followed by one that may use what was seen. -/
theorem grounds_then (hx : grounds J x seen (SucceedsSeeing K))
    (hf : ∀ a l, K a l → grounds J (f a) l (SucceedsSeeing K')) :
    grounds J (x >>= f) seen (SucceedsSeeing K') := by
  refine grounds_bind (grounds_mono (fun r l hr => ?_) hx)
  cases r with
  | ok a => exact hf a l (hr a rfl)
  | error e => exact fun b hb => by contradiction

/-- The condition on a program of which the end does not matter. -/
abbrev AnyEnd : Except E α → List D → Prop := SucceedsSeeing fun _ _ => True

/-- What follows has seen what came before, and more. -/
theorem grounds_onward (hx : grounds J x seen (SucceedsSeeing K))
    (hf : ∀ a l, seen <:+ l → K a l → grounds J (f a) l (SucceedsSeeing K')) :
    grounds J (x >>= f) seen (SucceedsSeeing K') := by
  refine grounds_then (K := fun a l => K a l ∧ seen <:+ l) ?_ fun a l h => hf a l h.2 h.1
  exact grounds_mono (fun _ _ h a ha => ⟨h.1 a ha, h.2⟩) (grounds_grows hx)

/-- A program that may end anyhow is followed by one that has seen no less. -/
theorem grounds_next (hx : grounds J x seen AnyEnd)
    (hf : ∀ a l, seen <:+ l → grounds J (f a) l (SucceedsSeeing K')) :
    grounds J (x >>= f) seen (SucceedsSeeing K') :=
  grounds_onward hx fun a l hl _ => hf a l hl

/-- A value has its grounds in what has been seen. -/
theorem grounds_pure {a : α} (h : K a seen) :
    grounds J (pure a : Prog S D R W E α) seen (SucceedsSeeing K) := fun b hb => by
  obtain rfl := Except.ok.inj hb
  exact h

/-- An error needs no grounds. -/
theorem grounds_throw (e : E) :
    grounds J (throw e : Prog S D R W E α) seen (SucceedsSeeing K) := fun a ha => by contradiction

/-- What is read is seen. -/
theorem grounds_select {f : D → Prog S D R W E β}
    (hf : ∀ d, grounds J (f d) (d :: seen) (SucceedsSeeing K')) :
    grounds J (Prog.select >>= f) seen (SucceedsSeeing K') :=
  ⟨hf, fun e => grounds_throw e⟩

/-- A check has passed if the program goes on. -/
theorem grounds_check {y : Except E α}
    (hf : ∀ a, y = .ok a → grounds J (f a) seen (SucceedsSeeing K')) :
    grounds J (Prog.ofExcept y >>= f) seen (SucceedsSeeing K') := by
  cases y with
  | ok a => exact hf a rfl
  | error e => exact grounds_throw e

/-- A write needs its grounds when it is made. -/
theorem grounds_save {w : W} {k : Unit → Prog S D R W E β} (hw : J seen w)
    (hk : grounds J (k ()) seen (SucceedsSeeing K')) :
    grounds J (Prog.save w >>= k) seen (SucceedsSeeing K') := ⟨hw, hk⟩

/-- A batch of writes rests on what has been seen before the first of them. -/
theorem grounds_saveAll {ws : List W} (hws : ∀ w ∈ ws, J seen w) :
    grounds J (Prog.saveAll ws : Prog S D R W E Unit) seen
      (SucceedsSeeing fun _ l => l = seen) := by
  induction ws with
  | nil => exact grounds_pure rfl
  | cons w ws ih =>
      exact ⟨hws w List.mem_cons_self, ih fun w' hw' => hws w' (List.mem_cons_of_mem w hw')⟩

/-- A commit needs no grounds, its writes have had theirs. -/
theorem grounds_commit : grounds J (Prog.commitWork : Prog S D R W E Unit) seen AnyEnd := by
  rintro (e | ⟨⟩)
  · exact grounds_throw e
  · exact grounds_pure trivial

/-- After a commit the program goes on with what it has seen. -/
theorem grounds_commitWork {k : Unit → Prog S D R W E β}
    (hk : grounds J (k ()) seen (SucceedsSeeing K')) :
    grounds J (Prog.commitWork >>= k) seen (SucceedsSeeing K') := by
  rintro (e | ⟨⟩)
  · exact grounds_throw e
  · exact hk

/-- A mapped result has the grounds of its source. -/
theorem grounds_map {g : α → β} (hx : grounds J x seen (SucceedsSeeing fun a l => K' (g a) l)) :
    grounds J (g <$> x) seen (SucceedsSeeing K') :=
  grounds_then hx fun _ _ ha => grounds_pure ha

end

/-- What a program of a part writes there rests on what it has seen of the part. -/
theorem Part.grounds_run {st : Store D R V W E} {st' : Store D' R V W' E} (P : Part st st')
    {J : List D → W → Prop} {J' : List D' → W' → Prop} {x : Prog S D R W E α} {seen : List D'}
    {Q : Except E α → List D → Prop}
    (hJ : ∀ l w, seen <:+ l → J (l.map P.get) w → J' l (P.lift w))
    (hx : grounds J x (seen.map P.get) Q) :
    grounds J' (P.run x) seen fun r l => Q r (l.map P.get) := by
  induction x generalizing seen with
  | pure a | fail e => exact hx
  | lock find k ih | read k ih =>
      refine ⟨fun d => ?_, fun e => ih (.error e) hJ (hx.2 e)⟩
      have hmore : ∀ l w, d :: seen <:+ l → J (l.map P.get) w → J' l (P.lift w) :=
        fun l w hl => hJ l w ((List.suffix_cons d seen).trans hl)
      exact ih (.ok (P.get d)) hmore (hx.1 (P.get d))
  | write w k ih => exact ⟨hJ seen w (List.suffix_refl seen) hx.1, ih hJ hx.2⟩
  | commit k ih | session k ih => exact fun y => ih y hJ (hx y)
  | rollback k ih | setSession σ k ih => exact ih hJ hx

/-! ## Runs -/

section
variable [DecidableEq T] [DecidableEq R] {st : Store D R V W E} {J : List D → W → Prop}
  {Q : Except E α → List D → Prop} {ok : Sys S D R W E α T → T → Prop} {t : T}
  {s s' : Sys S D R W E α T} {evs : List (Event D W T)} {d : D} {q : T → Prog S D R W E α × S}

/-- `t` has read the databases of `seen` in the course of `evs`. -/
def SeenBy (t : T) (evs : List (Event D W T)) (seen : List D) : Prop :=
  ∀ d ∈ seen, ∃ ev ∈ evs, ev.txn = t ∧ ev.before = d

omit [DecidableEq T] in
/-- What was seen in a run stays seen when the run goes on. -/
theorem SeenBy.append {seen : List D} (h : SeenBy t evs seen) (evs' : List (Event D W T)) :
    SeenBy t (evs ++ evs') seen := by
  intro d hd
  obtain ⟨ev, hev, htxn⟩ := h d hd
  exact ⟨ev, List.mem_append_left _ hev, htxn⟩

/-- Where a program stands that has begun with grounds for its writes. -/
structure Grounded (J : List D → W → Prop) (Q : Except E α → List D → Prop) (t : T)
    (evs : List (Event D W T)) (s : Sys S D R W E α T) : Prop where
  rest : ∃ seen, SeenBy t evs seen ∧ grounds J (s.proc t).prog seen Q
  pending : ∀ w ∈ (s.proc t).pending, ∃ seen, SeenBy t evs seen ∧ J seen w

omit [DecidableEq T] [DecidableEq R] in
/-- The grounds of a transaction from those of its program and of the writes it holds back. -/
theorem Grounded.of_proc {q' : Proc S D R W E α} {seen : List D} (hproc : s.proc t = q')
    (hseen : SeenBy t evs seen) (hrest : grounds J q'.prog seen Q)
    (hpending : ∀ w ∈ q'.pending, ∃ seen, SeenBy t evs seen ∧ J seen w) :
    Grounded J Q t evs s := by
  subst hproc
  exact ⟨⟨seen, hseen, hrest⟩, hpending⟩

/-- A step of the system keeps the grounds of a transaction. -/
theorem Grounded.step {fault : Bool} {c : Option (List W)} (h : Grounded J Q t evs s)
    (hs : s.step st t fault = some (c, s')) :
    Grounded J Q t (evs ++ [⟨t, c, s.db, s'.db⟩]) s' := by
  obtain ⟨⟨seen, hseen, hrest⟩, hpending⟩ := h
  have hlater := hseen.append [⟨t, c, s.db, s'.db⟩]
  have hkept : ∀ w ∈ (s.proc t).pending, ∃ seen,
      SeenBy t (evs ++ [⟨t, c, s.db, s'.db⟩]) seen ∧ J seen w := by
    intro w hw
    obtain ⟨l, hl, hJ⟩ := hpending w hw
    exact ⟨l, hl.append _, hJ⟩
  have hnone : ∀ w ∈ ([] : List W), ∃ seen,
      SeenBy t (evs ++ [⟨t, c, s.db, s'.db⟩]) seen ∧ J seen w :=
    fun w hw => absurd hw List.not_mem_nil
  have hread : SeenBy t (evs ++ [⟨t, c, s.db, s'.db⟩]) (s.db :: seen) := by
    intro d hd
    rcases List.mem_cons.mp hd with rfl | hd
    · exact ⟨_, List.mem_append_right _ List.mem_cons_self, rfl, rfl⟩
    · exact hlater d hd
  generalize evs ++ [⟨t, c, s.db, s'.db⟩] = evs' at hlater hkept hnone hread ⊢
  cases Sys.steps hs with
  | lock hp | grant hp | read hp =>
      rw [hp] at hrest
      exact .of_proc (Sys.proc_resume ..) hread (hrest.1 s.db) hkept
  | lockFails hp | readFails hp =>
      rw [hp] at hrest
      exact .of_proc (Sys.proc_abort ..) hlater (hrest.2 _) hnone
  | write hp =>
      rw [hp] at hrest
      refine .of_proc (Sys.proc_resume ..) hlater hrest.2 fun w hw => ?_
      rcases List.mem_append.mp hw with hold | hnew
      · exact hkept w hold
      · obtain rfl := List.mem_singleton.mp hnew
        exact ⟨seen, hlater, hrest.1⟩
  | commit hp =>
      rw [hp] at hrest
      exact .of_proc (Sys.proc_commit ..) hlater (hrest (.ok ())) hnone
  | commitRefused hp | commitFails hp =>
      rw [hp] at hrest
      exact .of_proc (Sys.proc_abort ..) hlater (hrest _) hnone
  | rollback hp =>
      rw [hp] at hrest
      exact .of_proc (Sys.proc_abort ..) hlater hrest hnone
  | session hp =>
      rw [hp] at hrest
      exact .of_proc (Sys.proc_resume ..) hlater (hrest _) hkept
  | setSession hp =>
      rw [hp] at hrest
      exact .of_proc (Sys.proc_resume ..) hlater hrest hkept

/-- What a step of `t` commits was pending. -/
theorem pending_of_commit {fault : Bool} {ws : List W}
    (hs : s.step st t fault = some (some ws, s')) : ws = (s.proc t).pending := by
  cases Sys.steps hs with
  | commit hp => rfl

/-- Every transaction of a run has its grounds in the states seen before. -/
theorem Grounded.of_run (hstart : grounds J (q t).1 [] Q) (h : Run st ok (.start d q) evs s) :
    Grounded J Q t evs s := by
  induction h with
  | nil => exact ⟨⟨[], fun _ hd => absurd hd List.not_mem_nil, hstart⟩, fun _ hw =>
      absurd hw List.not_mem_nil⟩
  | @snoc evs s u fault c s' _ _ hs ih =>
      by_cases htu : t = u
      · subst htu
        exact ih.step hs
      · obtain ⟨⟨seen, hseen, hrest⟩, hpending⟩ := ih
        rw [← (step_other htu hs).1] at hrest hpending
        refine ⟨⟨seen, hseen.append _, hrest⟩, fun w hw => ?_⟩
        obtain ⟨l, hl, hJ⟩ := hpending w hw
        exact ⟨l, hl.append _, hJ⟩

/-- **Every committed write has its grounds** in the databases that its program
had read before. -/
theorem Run.grounded (hstart : grounds J (q t).1 [] Q) (h : Run st ok (.start d q) evs s)
    {pre post : List (Event D W T)} {ev : Event D W T} (hsplit : evs = pre ++ ev :: post)
    (ht : ev.txn = t) {ws : List W} (hcommit : ev.commit = some ws) :
    ∀ w ∈ ws, ∃ seen, SeenBy t pre seen ∧ J seen w := by
  induction h generalizing post with
  | nil => cases pre <;> cases hsplit
  | @snoc evs s u fault c s' hrun _ hs ih =>
      obtain rfl | ⟨mid, last, rfl⟩ := List.eq_nil_or_concat post
      · obtain ⟨rfl, hev⟩ := List.append_inj' hsplit rfl
        obtain rfl := List.singleton_inj.mp hev
        change u = t at ht
        subst ht
        change c = some ws at hcommit
        subst hcommit
        intro w hw
        exact (Grounded.of_run hstart hrun).pending w (pending_of_commit hs ▸ hw)
      · rw [List.concat_eq_append, ← List.cons_append, ← List.append_assoc] at hsplit
        exact ih (List.append_inj' hsplit rfl).1

omit [DecidableEq R] in
/-- What comes to hold with a unit of work comes with one of its writes. -/
theorem cause_of_applyAll {I : D → Prop} {G : W → Prop}
    (hG : ∀ w d d', st.apply w d = .ok d' → I d' → I d ∨ G w) {ws : List W} {d d' : D}
    (happly : st.applyAll ws d = .ok d') (hafter : I d') : I d ∨ ∃ w ∈ ws, G w := by
  induction ws generalizing d with
  | nil => exact .inl (Store.applyAll_nil.mp happly ▸ hafter)
  | cons w ws ih =>
      obtain ⟨d₁, hfirst, hrest⟩ := Store.applyAll_cons.mp happly
      rcases ih hrest with hmid | ⟨w', hw', hg⟩
      · rcases hG w d d₁ hfirst hmid with hold | hg
        · exact .inl hold
        · exact .inr ⟨w, List.mem_cons_self, hg⟩
      · exact .inr ⟨w', List.mem_cons_of_mem _ hw', hg⟩

/-- **What comes to hold in a run has its grounds**: since any earlier point `s₁` of
the run, it comes with a write of a program that has read, before, what the write
takes. -/
theorem Run.cause {L : T → List D → W → Prop} (hstart : ∀ t, grounds (L t) (q t).1 [] Q)
    (h : Run st ok (.start d q) evs s) {pre rest : List (Event D W T)} {s₁ : Sys S D R W E α T}
    (hpre : Run st ok (.start d q) pre s₁) (hsplit : evs = pre ++ rest) {I : D → Prop}
    {G : W → Prop} (hG : ∀ w d d', st.apply w d = .ok d' → I d' → I d ∨ G w) (hnow : I s.db) :
    I s₁.db ∨ ∃ mid ev post w seen, rest = mid ++ ev :: post ∧ G w ∧
      SeenBy ev.txn (pre ++ mid) seen ∧ L ev.txn seen w := by
  induction h generalizing rest with
  | nil =>
      obtain ⟨rfl, -⟩ := List.append_eq_nil_iff.mp hsplit.symm
      exact .inl (hpre.eq_start ▸ hnow)
  | @snoc evs s t fault c s' hrun hok hs ih =>
      obtain rfl | ⟨mid, last, rfl⟩ := List.eq_nil_or_concat rest
      · -- nothing has happened since
        rw [List.append_nil] at hsplit
        subst hsplit
        exact .inl (hpre.db_of_snoc ▸ hnow)
      have hcut : evs ++ [⟨t, c, s.db, s'.db⟩] = (pre ++ mid) ++ [last] := by
        rw [hsplit, List.concat_eq_append, List.append_assoc]
      obtain ⟨hfront, hlast⟩ := List.append_inj' hcut rfl
      obtain rfl := List.singleton_inj.mp hlast
      have hrun' := hrun.snoc hok hs
      have happly := hrun'.event_db _ (List.mem_append_right _ List.mem_cons_self)
      rcases cause_of_applyAll hG happly hnow with hbefore | ⟨w, hw, hg⟩
      · refine (ih hfront hbefore).imp_right ?_
        rintro ⟨mid', ev, post, w, seen, rfl, hrest⟩
        exact ⟨mid', ev, post ++ [⟨t, c, s.db, s'.db⟩], w, seen, by simp, hrest⟩
      · cases c with
        | none => cases hw
        | some ws =>
            obtain ⟨seen, hseen, hgrounds⟩ :=
              Run.grounded (hstart t) hrun' rfl rfl rfl w hw
            exact .inr ⟨mid, _, [], w, seen, List.concat_eq_append, hg, hfront ▸ hseen, hgrounds⟩

end

end RowStore
