import FairDrop.RowStore.Reasons

/-!
# Units of work that could be made alone

A program in the middle of others sees the database at several moments, and
others commit in between.  `retraces st P rely skew x p last same Q` says that
whenever `x` commits, it would have come to this commit alone, on the database
that it commits to: `same` collects the databases on which each statement so far
would have been answered alike.  Where the program cannot know that, its commit
is a `skew`.

The commits of a run are then those of a serial run, in the order in which they
were made (`Run.commits_alone`).
-/

namespace RowStore

variable {S D R V W E α β T : Type}

def retraces (st : Store D R V W E) (P : D → Prop) (rely skew : D → D → Prop) :
    Prog S D R W E α → Known S D R V W → D → (D → Prop) →
      (Except E α → Known S D R V W → D → (D → Prop) → Prop) → Prop
  | .pure a, p, last, same, Q => Q (.ok a) p last same
  | .fail e, p, last, same, Q => Q (.error e) p last same
  | .lock find k, p, last, same, Q =>
      (∀ d, p.Sees st P rely last d → ∃ same' : D → Prop,
        (∀ d', same' d' → same d' ∧ k (.ok d') = k (.ok d)) ∧ match find d with
          | none => retraces st P rely skew (k (.ok d)) p d same' Q
          | some r => retraces st P rely skew (k (.ok d)) (p.hold r (st.view d r)) d same' Q) ∧
      retraces st P rely skew (k (.error st.outage)) p.abort last (fun _ => False) Q
  | .read k, p, last, same, Q =>
      (∀ d, p.Sees st P rely last d → ∃ same' : D → Prop,
        (∀ d', same' d' → same d' ∧ k (.ok d') = k (.ok d)) ∧
          retraces st P rely skew (k (.ok d)) p d same' Q) ∧
      retraces st P rely skew (k (.error st.outage)) p.abort last (fun _ => False) Q
  | .write w k, p, last, same, Q => retraces st P rely skew k (p.push w) last same Q
  | .commit k, p, last, same, Q =>
      (∀ d, p.Sees st P rely last d → match st.applyAll p.pending d with
        | .ok d' => skew d d' ∨ same d
        | .error e => retraces st P rely skew (k (.error e)) p.abort d (fun _ => False) Q) ∧
      retraces st P rely skew (k (.error st.outage)) p.abort last (fun _ => False) Q
  | .rollback k, p, last, same, Q => retraces st P rely skew k p.abort last same Q
  | .session k, p, last, same, Q => retraces st P rely skew (k p.session) p last same Q
  | .setSession σ k, p, last, same, Q =>
      retraces st P rely skew k { p with session := σ } last same Q

section
variable {st : Store D R V W E} {P : D → Prop} {rely skew : D → D → Prop}
  {p : Known S D R V W} {last : D} {same : D → Prop}

theorem retraces_mono {x : Prog S D R W E α}
    {Q Q' : Except E α → Known S D R V W → D → (D → Prop) → Prop}
    (h : ∀ r p d same, Q r p d same → Q' r p d same)
    (hx : retraces st P rely skew x p last same Q) : retraces st P rely skew x p last same Q' := by
  induction x generalizing p last same with
  | pure a | fail e => exact h _ _ _ _ hx
  | lock find k ih =>
      refine ⟨fun d hd => ?_, ih _ hx.2⟩
      obtain ⟨same', hsame, hgo⟩ := hx.1 d hd
      refine ⟨same', hsame, ?_⟩
      split
      · next hf => rw [hf] at hgo; exact ih _ hgo
      · next r hf => rw [hf] at hgo; exact ih _ hgo
  | read k ih =>
      refine ⟨fun d hd => ?_, ih _ hx.2⟩
      obtain ⟨same', hsame, hgo⟩ := hx.1 d hd
      exact ⟨same', hsame, ih _ hgo⟩
  | write w k ih | rollback k ih | setSession σ k ih => exact ih hx
  | commit k ih =>
      refine ⟨fun d hd => ?_, ih _ hx.2⟩
      have hgo := hx.1 d hd
      split
      · next d' ha => rw [ha] at hgo; exact hgo
      · next e ha => rw [ha] at hgo; exact ih _ hgo
  | session k ih => exact ih _ hx

/-! ## Rules for the program constructs -/

/-- A sequence retraces part by part. -/
theorem retraces_bind {x : Prog S D R W E α} {f : α → Prog S D R W E β}
    {Q : Except E β → Known S D R V W → D → (D → Prop) → Prop}
    (h : retraces st P rely skew x p last same fun r p' d same' => match r with
      | .ok a => retraces st P rely skew (f a) p' d same' Q
      | .error e => Q (.error e) p' d same') : retraces st P rely skew (x >>= f) p last same Q := by
  change retraces st P rely skew (x.bind f) p last same Q
  induction x generalizing p last same with
  | pure a | fail e => exact h
  | lock find k ih =>
      refine ⟨fun d hd => ?_, ih _ h.2⟩
      obtain ⟨same', hsame, hgo⟩ := h.1 d hd
      refine ⟨same', fun d' hd' => ⟨(hsame d' hd').1, congrArg (·.bind f) (hsame d' hd').2⟩, ?_⟩
      split
      · next hf => rw [hf] at hgo; exact ih _ hgo
      · next r hf => rw [hf] at hgo; exact ih _ hgo
  | read k ih =>
      refine ⟨fun d hd => ?_, ih _ h.2⟩
      obtain ⟨same', hsame, hgo⟩ := h.1 d hd
      exact ⟨same', fun d' hd' => ⟨(hsame d' hd').1, congrArg (·.bind f) (hsame d' hd').2⟩, ih _ hgo⟩
  | write w k ih | rollback k ih | setSession σ k ih => exact ih h
  | commit k ih =>
      refine ⟨fun d hd => ?_, ih _ h.2⟩
      have hgo := h.1 d hd
      split
      · next d' ha => rw [ha] at hgo; exact hgo
      · next e ha => rw [ha] at hgo; exact ih _ hgo
  | session k ih => exact ih _ h

/-- A handled error retraces in the handler. -/
theorem retraces_tryCatch {x : Prog S D R W E α} {h : E → Prog S D R W E α}
    {Q : Except E α → Known S D R V W → D → (D → Prop) → Prop}
    (hx : retraces st P rely skew x p last same fun r p' d same' => match r with
      | .ok a => Q (.ok a) p' d same'
      | .error e => retraces st P rely skew (h e) p' d same' Q) :
    retraces st P rely skew (tryCatch x h) p last same Q := by
  change retraces st P rely skew (x.catchFail h) p last same Q
  induction x generalizing p last same with
  | pure a | fail e => exact hx
  | lock find k ih =>
      refine ⟨fun d hd => ?_, ih _ hx.2⟩
      obtain ⟨same', hsame, hgo⟩ := hx.1 d hd
      refine ⟨same', fun d' hd' => ⟨(hsame d' hd').1, congrArg (·.catchFail h) (hsame d' hd').2⟩, ?_⟩
      split
      · next hf => rw [hf] at hgo; exact ih _ hgo
      · next r hf => rw [hf] at hgo; exact ih _ hgo
  | read k ih =>
      refine ⟨fun d hd => ?_, ih _ hx.2⟩
      obtain ⟨same', hsame, hgo⟩ := hx.1 d hd
      exact ⟨same', fun d' hd' => ⟨(hsame d' hd').1, congrArg (·.catchFail h) (hsame d' hd').2⟩,
        ih _ hgo⟩
  | write w k ih | rollback k ih | setSession σ k ih => exact ih hx
  | commit k ih =>
      refine ⟨fun d hd => ?_, ih _ hx.2⟩
      have hgo := hx.1 d hd
      split
      · next d' ha => rw [ha] at hgo; exact hgo
      · next e ha => rw [ha] at hgo; exact ih _ hgo
  | session k ih => exact ih _ hx

theorem retraces_ofExcept {x : Except E α}
    {Q : Except E α → Known S D R V W → D → (D → Prop) → Prop}
    (h : Q x p last same) : retraces st P rely skew (Prog.ofExcept x) p last same Q := by
  cases x with
  | ok a => exact h
  | error e => exact h

@[simp] theorem retraces_pure (a : α) (Q : Except E α → Known S D R V W → D → (D → Prop) → Prop) :
    retraces st P rely skew (Pure.pure a : Prog S D R W E α) p last same Q =
      Q (.ok a) p last same := rfl

@[simp] theorem retraces_save (w : W)
    (Q : Except E Unit → Known S D R V W → D → (D → Prop) → Prop) :
    retraces st P rely skew (Prog.save w) p last same Q = Q (.ok ()) (p.push w) last same := rfl

@[simp] theorem retraces_getSession
    (Q : Except E S → Known S D R V W → D → (D → Prop) → Prop) :
    retraces st P rely skew (Prog.getSession : Prog S D R W E S) p last same Q =
      Q (.ok p.session) p last same := rfl

@[simp] theorem retraces_putSession (σ : S)
    (Q : Except E Unit → Known S D R V W → D → (D → Prop) → Prop) :
    retraces st P rely skew (Prog.putSession σ) p last same Q =
      Q (.ok ()) { p with session := σ } last same := rfl

/-- A query of `f`, and nothing else. -/
theorem retraces_query {γ : Type} (x : γ → Prog S D R W E α) (f : D → γ)
    {Q : Except E α → Known S D R V W → D → (D → Prop) → Prop}
    (hok : ∀ d, p.Sees st P rely last d →
      retraces st P rely skew (x (f d)) p d (fun d' => same d' ∧ f d' = f d) Q)
    (hout : Q (.error st.outage) p.abort last fun _ => False) :
    retraces st P rely skew (Prog.select >>= fun d => x (f d)) p last same Q :=
  ⟨fun d hd => ⟨_, fun _ hd' => ⟨hd'.1, congrArg x hd'.2⟩, hok d hd⟩, hout⟩

/-- A locking query of `f`. -/
theorem retraces_lock {γ : Type} {find : D → Option R} (x : γ → Prog S D R W E α) (f : D → γ)
    {Q : Except E α → Known S D R V W → D → (D → Prop) → Prop}
    (hnone : ∀ d, p.Sees st P rely last d → find d = none →
      retraces st P rely skew (x (f d)) p d (fun d' => same d' ∧ f d' = f d) Q)
    (hsome : ∀ d r, p.Sees st P rely last d → find d = some r →
      retraces st P rely skew (x (f d)) (p.hold r (st.view d r)) d
        (fun d' => same d' ∧ f d' = f d) Q)
    (hout : Q (.error st.outage) p.abort last fun _ => False) :
    retraces st P rely skew (Prog.selectForUpdate find >>= fun d => x (f d)) p last same Q := by
  refine ⟨fun d hd => ⟨fun d' => same d' ∧ f d' = f d,
    fun _ hd' => ⟨hd'.1, congrArg x hd'.2⟩, ?_⟩, hout⟩
  split
  · next hf => exact hnone d hd hf
  · next r hf => exact hsome d r hd hf

/-- What comes after the commit does not matter. -/
theorem retraces_commitWork {f : Unit → Prog S D R W E α}
    {Q : Except E α → Known S D R V W → D → (D → Prop) → Prop}
    (hok : ∀ d d', p.Sees st P rely last d → st.applyAll p.pending d = .ok d' →
      skew d d' ∨ same d)
    (herr : ∀ d e, p.Sees st P rely last d → st.applyAll p.pending d = .error e →
      Q (.error e) p.abort d fun _ => False)
    (hout : Q (.error st.outage) p.abort last fun _ => False) :
    retraces st P rely skew (Prog.commitWork >>= f) p last same Q := by
  refine ⟨fun d hd => ?_, hout⟩
  split
  · next d' ha => exact hok d d' hd ha
  · next e ha => exact herr d e hd ha

/-- However it ends. -/
abbrev Retraceable (st : Store D R V W E) (P : D → Prop) (rely skew : D → D → Prop)
    (x : Prog S D R W E α) (p : Known S D R V W) (last : D) (same : D → Prop) : Prop :=
  retraces st P rely skew x p last same fun _ _ _ _ => True

theorem Retraceable.bind {x : Prog S D R W E α} {f : α → Prog S D R W E β}
    (h : retraces st P rely skew x p last same fun r p' d same' => match r with
      | .ok a => Retraceable st P rely skew (f a) p' d same'
      | .error _ => True) : Retraceable st P rely skew (x >>= f) p last same :=
  retraces_bind h

theorem Retraceable.map {x : Prog S D R W E α} (h : Retraceable st P rely skew x p last same)
    (f : α → β) : Retraceable st P rely skew (f <$> x) p last same := by
  change retraces st P rely skew (x >>= fun a => pure (f a)) p last same _
  apply retraces_bind
  refine retraces_mono (fun r p' d same' _ => ?_) h
  cases r <;> trivial

theorem Retraceable.inSession {x : Prog S D R W E α} (h : Retraceable st P rely skew x p last same) :
    Retraceable st P rely skew (Prog.inSession x) p last same := by
  apply retraces_tryCatch
  apply retraces_bind
  refine retraces_mono (fun r p' d same' _ => ?_) h
  cases r <;> trivial

end

/-! ## Runs -/

/-- The program of `t`, which began as `x` in the session `σ`, stands where it
would stand alone on any database of `same`. -/
structure Retraces (st : Store D R V W E) (P : D → Prop) (rely skew : D → D → Prop)
    (x : Prog S D R W E α) (σ : S) (s : Sys S D R W E α T) (t : T) (p : Known S D R V W) (last : D)
    (same : D → Prop) : Prop where
  rest : Retraceable st P rely skew (s.proc t).prog p last same
  knows : Knows st rely s t p last
  alone : ∀ d, same d →
    exec st x [] d [] σ = exec st (s.proc t).prog [] d p.pending p.session

/-- The commit of an event is a skew, or the first one of `x` alone. -/
def CommitsAlone (st : Store D R V W E) (skew : D → D → Prop) (x : Prog S D R W E α) (σ : S)
    (ev : Event D W T) : Prop :=
  skew ev.before ev.after ∨
    ∃ ws, (exec st x [] ev.before [] σ).commits.head? = some ⟨ev.before, ws, ev.after⟩

section
variable {st : Store D R V W E} {P : D → Prop} {rely skew : D → D → Prop} {x : Prog S D R W E α}
  {σ : S} {s s' : Sys S D R W E α T} {t : T} {p : Known S D R V W} {last : D} {same : D → Prop}
  [DecidableEq T] [DecidableEq R]

omit [DecidableEq T] [DecidableEq R] in
/-- What has been executed so far is what the solo run does first. -/
theorem Retraces.of_prog {y : Prog S D R W E α} (hprog : (s'.proc t).prog = y)
    (hy : Retraceable st P rely skew y p last same) (hknows : Knows st rely s' t p last)
    (halone : ∀ d, same d → exec st x [] d [] σ = exec st y [] d p.pending p.session) :
    Retraces st P rely skew x σ s' t p last same := by
  subst hprog
  exact ⟨hy, hknows, halone⟩

/-- A step either keeps the transaction retracing or commits as it would alone. -/
theorem Retraces.step (h : Retraces st P rely skew x σ s t p last same) (hrefl : ∀ d, rely d d)
    (hP : P s.db) {fault : Bool} {c : Option (List W)} (hs : s.step st t fault = some (c, s')) :
    (c = none ∧ ∃ p' last' same', Retraces st P rely skew x σ s' t p' last' same') ∨
      (c.isSome ∧ CommitsAlone st skew x σ ⟨t, c, s.db, s'.db⟩) := by
  obtain ⟨hrest, hknows, halone⟩ := h
  have hpend := hknows.pending
  have hsess := hknows.session
  have hsees : p.Sees st P rely last s.db := hknows.sees hP
  have hresume : ∀ y : Proc S D R W E α, ((s.resume t y).proc t).prog = y.prog :=
    fun y => congrArg Proc.prog (if_pos rfl)
  have hended : ∀ y : Prog S D R W E α, ((s.abort t y).proc t).prog = y :=
    fun y => congrArg Proc.prog (if_pos rfl)
  -- a program that has lost its transaction is compared with nothing any more
  have habort : ∀ (y : Prog S D R W E α) (last' : D), rely last' s.db →
      Retraceable st P rely skew y p.abort last' (fun _ => False) →
        ∃ p' last' same', Retraces st P rely skew x σ (s.abort t y) t p' last' same' :=
    fun y last' hlast hy => ⟨_, _, _, .of_prog (hended y) hy (hknows.abort hlast) fun d hd => hd.elim⟩
  cases Sys.steps hs with
  | @lock find k hp hfind =>
      rw [hp] at hrest halone
      obtain ⟨same', hsame, hgo⟩ := hrest.1 s.db hsees
      rw [hfind] at hgo
      rw [hpend, hsess]
      refine .inl ⟨rfl, p, s.db, same',
        .of_prog (hresume _) hgo (hknows.resume p rfl rfl (hrefl _)) fun d hd => ?_⟩
      rw [halone d (hsame d hd).1, ← (hsame d hd).2]
      rfl
  | @grant find k r hp hfind hfree =>
      rw [hp] at hrest halone
      obtain ⟨same', hsame, hgo⟩ := hrest.1 s.db hsees
      rw [hfind] at hgo
      rw [hpend, hsess]
      refine .inl ⟨rfl, _, _, same',
        .of_prog (congrArg Proc.prog (if_pos rfl)) hgo (hknows.acquire hrefl) fun d hd => ?_⟩
      rw [halone d (hsame d hd).1, ← (hsame d hd).2]
      rfl
  | lockFails hp | readFails hp | commitFails hp =>
      rw [hp] at hrest
      exact .inl ⟨rfl, habort _ _ hknows.last hrest.2⟩
  | read hp =>
      rw [hp] at hrest halone
      obtain ⟨same', hsame, hgo⟩ := hrest.1 s.db hsees
      rw [hpend, hsess]
      refine .inl ⟨rfl, p, s.db, same',
        .of_prog (hresume _) hgo (hknows.resume p rfl rfl (hrefl _)) fun d hd => ?_⟩
      rw [halone d (hsame d hd).1, ← (hsame d hd).2]
      rfl
  | @write w k hp =>
      rw [hp] at hrest halone
      rw [hpend, hsess]
      exact .inl ⟨rfl, p.push w, last, same,
        .of_prog (hresume _) hrest (hknows.resume (p.push w) rfl rfl hknows.last) halone⟩
  | commit hp happly =>
      rw [hp] at hrest halone
      have hgo := hrest.1 s.db hsees
      rw [hpend] at happly ⊢
      rw [happly] at hgo
      refine .inr ⟨rfl, hgo.imp_right fun hhere => ⟨p.pending, ?_⟩⟩
      simp [halone s.db hhere, exec, happly]
  | commitRefused hp happly =>
      rw [hp] at hrest
      have hgo := hrest.1 s.db hsees
      rw [hpend] at happly
      rw [happly] at hgo
      exact .inl ⟨rfl, habort _ _ (hrefl _) hgo⟩
  | @rollback k hp =>
      rw [hp] at hrest halone
      exact .inl ⟨rfl, p.abort, last, same,
        .of_prog (hended k) hrest (hknows.abort hknows.last) halone⟩
  | session hp =>
      rw [hp] at hrest halone
      rw [hpend, hsess]
      exact .inl ⟨rfl, p, last, same,
        .of_prog (hresume _) hrest (hknows.resume p rfl rfl hknows.last) halone⟩
  | @setSession τ k hp =>
      rw [hp] at hrest halone
      rw [hpend]
      exact .inl ⟨rfl, { p with session := τ }, last, same, .of_prog (hresume _) hrest
        (hknows.resume { p with session := τ } rfl rfl hknows.last) halone⟩

variable {ru : T → Rules S D R W} {G : T → Except E α → Known S D R V W → Prop}
  {ok : Sys S D R W E α T → T → Prop} {evs : List (Event D W T)} {d : D}
  {q : T → Prog S D R W E α × S}

/-- Until it commits, a program can be retraced; its first commit is its own or a skew. -/
theorem Run.retraces (hstart : ∀ u, wp st (ru u) (q u).1 (.start (q u).2 none) (G u))
    (hinv : Invariants ru d) (hgrant : ∀ s u, ok s u → GrantOk (ru u) s u)
    (hrefl : ∀ d, rely d d) (htrans : ∀ a b c, rely a b → rely b c → rely a c)
    (hretraces : Retraceable st P rely skew (q t).1 (.start (q t).2 none) d fun _ => True)
    (h : Run st ok (.start d q) evs s) (hrely : ∀ ev ∈ evs, rely ev.before ev.after)
    (hhere : ∀ ev ∈ evs, ev.txn = t → P ev.before) :
    ((∀ ev ∈ evs, ev.txn = t → ev.commit = none) ∧
        ∃ p last same, Retraces st P rely skew (q t).1 (q t).2 s t p last same) ∨
      ∃ ev ∈ evs, ev.txn = t ∧ ev.commit.isSome ∧ CommitsAlone st skew (q t).1 (q t).2 ev := by
  induction h with
  | nil =>
      exact .inl ⟨by simp, _, _, _, hretraces, .start hrefl, fun d _ => rfl⟩
  | @snoc evs s u fault c s' hrun hok hs ih =>
      have hbefore := ih (fun ev hev => hrely ev (by simp [hev])) fun ev hev => hhere ev (by simp [hev])
      rcases hbefore with ⟨hnone, p, last, same, hretr⟩ | ⟨ev, hev, ht, hsome, halone⟩
      · by_cases htu : t = u
        · subst htu
          have hstep := hretr.step hrefl (hhere ⟨t, c, s.db, s'.db⟩ (by simp) rfl) hs
          rcases hstep with ⟨rfl, hnext⟩ | ⟨hsome, halone⟩
          · refine .inl ⟨fun ev hev ht => ?_, hnext⟩
            cases List.mem_append.mp hev with
            | inl hold => exact hnone ev hold ht
            | inr hlast => rw [List.mem_singleton.mp hlast]
          · exact .inr ⟨_, by simp, rfl, hsome, halone⟩
        · have hlast := htrans _ _ _ hretr.knows.last (hrely ⟨u, c, s.db, s'.db⟩ (by simp))
          obtain ⟨hknows, hproc⟩ := hretr.knows.kept hstart hinv hgrant hrun hok hs htu hlast
          refine .inl ⟨fun ev hev ht => ?_, p, last, same, hproc ▸ hretr.rest, hknows,
            hproc ▸ hretr.alone⟩
          cases List.mem_append.mp hev with
          | inl hold => exact hnone ev hold ht
          | inr hlast =>
              rw [List.mem_singleton.mp hlast] at ht
              exact absurd ht.symm htu
      · exact .inr ⟨ev, by simp [hev], ht, hsome, halone⟩

/-- **What is committed could be committed alone**, by a program that commits once. -/
theorem Run.commits_alone (hstart : ∀ u, wp st (ru u) (q u).1 (.start (q u).2 none) (G u))
    (hinv : Invariants ru d) (hgrant : ∀ s u, ok s u → GrantOk (ru u) s u)
    (hrefl : ∀ d, rely d d) (htrans : ∀ a b c, rely a b → rely b c → rely a c)
    (hretraces : Retraceable st P rely skew (q t).1 (.start (q t).2 none) d fun _ => True)
    (h : Run st ok (.start d q) evs s) (hrely : ∀ ev ∈ evs, rely ev.before ev.after)
    (hhere : ∀ ev ∈ evs, ev.txn = t → P ev.before) (honce : commitsOf t evs ≤ 1) :
    ∀ ev ∈ evs, ev.txn = t → ev.commit.isSome → CommitsAlone st skew (q t).1 (q t).2 ev := by
  intro ev hev ht hsome
  have hret := Run.retraces hstart hinv hgrant hrefl htrans hretraces h hrely hhere
  rcases hret with ⟨hnone, -⟩ | ⟨ev', hev', ht', hsome', halone⟩
  · rw [hnone ev hev ht] at hsome
    contradiction
  · have hone : ev = ev' := eq_of_countP_le_one honce hev (by simp [ht, hsome]) hev'
      (by simp [ht', hsome'])
    exact hone ▸ halone

end

end RowStore
