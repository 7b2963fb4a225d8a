import FairDrop.RowStore.Interleave

/-!
# Why a program ends as it does

A program logic for the answers of a program in the middle of others.
`explains st P rely x p last Q` says that `x`, knowing its locked rows and its
pending writes (`p`) and having seen the database last as `last`, ends in a way
that meets `Q`, if every database that it sees meets `P` and comes after the one
that it saw before (`rely`).

Unlike `wp` it asks nothing of what the program does to others, and unlike `ends`
it follows the pending writes, so it can tell which commits are refused.
-/

namespace RowStore

variable {S D R V W E α β T : Type}

/-- `d` may be what a program sees next. -/
structure Known.Sees (st : Store D R V W E) (P : D → Prop) (rely : D → D → Prop)
    (p : Known S D R V W) (last d : D) : Prop where
  agrees : p.Agrees st d
  here : P d
  after : rely last d

def explains (st : Store D R V W E) (P : D → Prop) (rely : D → D → Prop) :
    Prog S D R W E α → Known S D R V W → D → (Except E α → Known S D R V W → D → Prop) → Prop
  | .pure a, p, last, Q => Q (.ok a) p last
  | .fail e, p, last, Q => Q (.error e) p last
  | .lock find k, p, last, Q =>
      (∀ d, p.Sees st P rely last d → match find d with
        | none => explains st P rely (k (.ok d)) p d Q
        | some r => explains st P rely (k (.ok d)) (p.hold r (st.view d r)) d Q) ∧
      explains st P rely (k (.error st.outage)) p.abort last Q
  | .read k, p, last, Q =>
      (∀ d, p.Sees st P rely last d → explains st P rely (k (.ok d)) p d Q) ∧
      explains st P rely (k (.error st.outage)) p.abort last Q
  | .write w k, p, last, Q => explains st P rely k (p.push w) last Q
  | .commit k, p, last, Q =>
      (∀ d, p.Sees st P rely last d → match st.applyAll p.pending d with
        | .ok d' => explains st P rely (k (.ok ())) (p.committed d') d' Q
        | .error e => explains st P rely (k (.error e)) p.abort d Q) ∧
      explains st P rely (k (.error st.outage)) p.abort last Q
  | .rollback k, p, last, Q => explains st P rely k p.abort last Q
  | .session k, p, last, Q => explains st P rely (k p.session) p last Q
  | .setSession σ k, p, last, Q => explains st P rely k { p with session := σ } last Q

section
variable {st : Store D R V W E} {P : D → Prop} {rely : D → D → Prop} {p : Known S D R V W}
  {last : D}

/-- Weaker ends have the same reasons. -/
theorem explains_mono {x : Prog S D R W E α} {Q Q' : Except E α → Known S D R V W → D → Prop}
    (h : ∀ r p d, Q r p d → Q' r p d) (hx : explains st P rely x p last Q) :
    explains st P rely x p last Q' := by
  induction x generalizing p last with
  | pure a | fail e => exact h _ _ _ hx
  | lock find k ih =>
      refine ⟨fun d hd => ?_, ih _ hx.2⟩
      have hgo := hx.1 d hd
      split
      · next hf => rw [hf] at hgo; exact ih _ hgo
      · next r hf => rw [hf] at hgo; exact ih _ hgo
  | read k ih => exact ⟨fun d hd => ih _ (hx.1 d hd), ih _ hx.2⟩
  | write w k ih | rollback k ih | setSession σ k ih => exact ih hx
  | commit k ih =>
      refine ⟨fun d hd => ?_, ih _ hx.2⟩
      have hgo := hx.1 d hd
      split
      · next d' ha => rw [ha] at hgo; exact ih _ hgo
      · next e ha => rw [ha] at hgo; exact ih _ hgo
  | session k ih => exact ih _ hx

/-! ## Rules for the program constructs -/

/-- A sequence is explained part by part. -/
theorem explains_bind {x : Prog S D R W E α} {f : α → Prog S D R W E β}
    {Q : Except E β → Known S D R V W → D → Prop}
    (h : explains st P rely x p last fun r p' d => match r with
      | .ok a => explains st P rely (f a) p' d Q
      | .error e => Q (.error e) p' d) : explains st P rely (x >>= f) p last Q := by
  change explains st P rely (x.bind f) p last Q
  induction x generalizing p last with
  | pure a | fail e => exact h
  | lock find k ih =>
      refine ⟨fun d hd => ?_, ih _ h.2⟩
      have hgo := h.1 d hd
      split
      · next hf => rw [hf] at hgo; exact ih _ hgo
      · next r hf => rw [hf] at hgo; exact ih _ hgo
  | read k ih => exact ⟨fun d hd => ih _ (h.1 d hd), ih _ h.2⟩
  | write w k ih | rollback k ih | setSession σ k ih => exact ih h
  | commit k ih =>
      refine ⟨fun d hd => ?_, ih _ h.2⟩
      have hgo := h.1 d hd
      split
      · next d' ha => rw [ha] at hgo; exact ih _ hgo
      · next e ha => rw [ha] at hgo; exact ih _ hgo
  | session k ih => exact ih _ h

/-- A mapped result is explained by its source. -/
theorem explains_map {x : Prog S D R W E α} {f : α → β}
    {Q : Except E β → Known S D R V W → D → Prop}
    (h : explains st P rely x p last fun r p' d => Q (r.map f) p' d) :
    explains st P rely (f <$> x) p last Q := by
  change explains st P rely (x >>= fun a => pure (f a)) p last Q
  apply explains_bind
  refine explains_mono (fun r p' d hr => ?_) h
  cases r with
  | ok a => exact hr
  | error e => exact hr

/-- A handled error is explained by the handler. -/
theorem explains_tryCatch {x : Prog S D R W E α} {h : E → Prog S D R W E α}
    {Q : Except E α → Known S D R V W → D → Prop}
    (hx : explains st P rely x p last fun r p' d => match r with
      | .ok a => Q (.ok a) p' d
      | .error e => explains st P rely (h e) p' d Q) :
    explains st P rely (tryCatch x h) p last Q := by
  change explains st P rely (x.catchFail h) p last Q
  induction x generalizing p last with
  | pure a | fail e => exact hx
  | lock find k ih =>
      refine ⟨fun d hd => ?_, ih _ hx.2⟩
      have hgo := hx.1 d hd
      split
      · next hf => rw [hf] at hgo; exact ih _ hgo
      · next r hf => rw [hf] at hgo; exact ih _ hgo
  | read k ih => exact ⟨fun d hd => ih _ (hx.1 d hd), ih _ hx.2⟩
  | write w k ih | rollback k ih | setSession σ k ih => exact ih hx
  | commit k ih =>
      refine ⟨fun d hd => ?_, ih _ hx.2⟩
      have hgo := hx.1 d hd
      split
      · next d' ha => rw [ha] at hgo; exact ih _ hgo
      · next e ha => rw [ha] at hgo; exact ih _ hgo
  | session k ih => exact ih _ hx

/-- A session is explained by what it runs. -/
theorem explains_inSession {x : Prog S D R W E α} {Q : Except E α → Prop}
    (h : explains st P rely x p last fun r _ _ => Q r) :
    explains st P rely (Prog.inSession x) p last fun r _ _ => Q r := by
  apply explains_tryCatch
  apply explains_bind
  refine explains_mono (fun r p' d hr => ?_) h
  cases r with
  | ok a => exact hr
  | error e => exact hr

@[simp] theorem explains_pure (a : α) (Q : Except E α → Known S D R V W → D → Prop) :
    explains st P rely (Pure.pure a : Prog S D R W E α) p last Q = Q (.ok a) p last := rfl

/-- A pure outcome explains itself. -/
theorem explains_ofExcept {x : Except E α} {Q : Except E α → Known S D R V W → D → Prop}
    (h : Q x p last) : explains st P rely (Prog.ofExcept x) p last Q := by
  cases x with
  | ok a => exact h
  | error e => exact h

@[simp] theorem explains_save (w : W) (Q : Except E Unit → Known S D R V W → D → Prop) :
    explains st P rely (Prog.save w) p last Q = Q (.ok ()) (p.push w) last := rfl

/-- A select sees a state and goes on, or the connection fails. -/
theorem explains_select {Q : Except E D → Known S D R V W → D → Prop}
    (hok : ∀ d, p.Sees st P rely last d → Q (.ok d) p d)
    (hout : Q (.error st.outage) p.abort last) : explains st P rely Prog.select p last Q :=
  ⟨hok, hout⟩

/-- A select for update finds nothing, or holds what it finds, or the connection fails. -/
theorem explains_selectForUpdate {find : D → Option R}
    {Q : Except E D → Known S D R V W → D → Prop}
    (hnone : ∀ d, p.Sees st P rely last d → find d = none → Q (.ok d) p d)
    (hsome : ∀ d r, p.Sees st P rely last d → find d = some r →
      Q (.ok d) (p.hold r (st.view d r)) d)
    (hout : Q (.error st.outage) p.abort last) :
    explains st P rely (Prog.selectForUpdate find) p last Q := by
  refine ⟨fun d hd => ?_, hout⟩
  split
  · next hf => exact hnone d hd hf
  · next r hf => exact hsome d r hd hf

/-- A commit stores the writes, is refused one of them, or the connection fails. -/
theorem explains_commitWork {Q : Except E Unit → Known S D R V W → D → Prop}
    (hok : ∀ d d', p.Sees st P rely last d → st.applyAll p.pending d = .ok d' →
      Q (.ok ()) (p.committed d') d')
    (herr : ∀ d e, p.Sees st P rely last d → st.applyAll p.pending d = .error e →
      Q (.error e) p.abort d)
    (hout : Q (.error st.outage) p.abort last) : explains st P rely Prog.commitWork p last Q := by
  refine ⟨fun d hd => ?_, hout⟩
  split
  · next d' ha => exact hok d d' hd ha
  · next e ha => exact herr d e hd ha

end

/-- The first write that is refused refuses the unit of work. -/
theorem Store.applyAll_cons_error {st : Store D R V W E} {w : W} {ws : List W} {d : D} {e : E} :
    st.applyAll (w :: ws) d = .error e ↔
      st.apply w d = .error e ∨ ∃ d', st.apply w d = .ok d' ∧ st.applyAll ws d' = .error e := by
  rw [Store.applyAll]
  cases st.apply w d <;> simp

/-- Writes in a row fail at the first that is refused. -/
theorem Store.applyAll_append_error {st : Store D R V W E} {ws ws' : List W} {d : D} {e : E} :
    st.applyAll (ws ++ ws') d = .error e ↔
      st.applyAll ws d = .error e ∨ ∃ d', st.applyAll ws d = .ok d' ∧ st.applyAll ws' d' = .error e := by
  induction ws generalizing d with
  | nil => simp [Store.applyAll]
  | cons w ws ih =>
      rw [List.cons_append, Store.applyAll, Store.applyAll]
      cases st.apply w d with
      | error e' => simp
      | ok d' => exact ih

/-! ## Runs -/

/-- `p` and `last` describe what `t` has seen before `s`. -/
structure Knows (st : Store D R V W E) (rely : D → D → Prop) (s : Sys S D R W E α T) (t : T)
    (p : Known S D R V W) (last : D) : Prop where
  agrees : p.Agrees st s.db
  snapshot : p.snapshot = none
  owned : ∀ x ∈ p.held, s.owner x.1 = some t
  pending : (s.proc t).pending = p.pending
  session : (s.proc t).session = p.session
  last : rely last s.db

section
variable {st : Store D R V W E} {P : D → Prop} {rely : D → D → Prop}
  {Q : Except E α → Known S D R V W → D → Prop} {s s' : Sys S D R W E α T} {t u : T}
  {p : Known S D R V W} {last last' : D} {x : Prog S D R W E α}

namespace Knows

/-- What a transaction knows agrees with the state it is in. -/
theorem sees (h : Knows st rely s t p last) (hP : P s.db) : p.Sees st P rely last s.db :=
  ⟨h.agrees, hP, h.last⟩

/-- A transaction that starts knows nothing yet. -/
theorem start {d : D} {q : T → Prog S D R W E α × S} (hrefl : ∀ d, rely d d) :
    Knows st rely (.start d q) t (.start (q t).2 none) d where
  agrees := Known.agrees_start _ _ (by simp)
  snapshot := rfl
  owned := by simp [Known.start]
  pending := rfl
  session := rfl
  last := hrefl d

/-- A step of another program that keeps the locked rows. -/
theorem other (h : Knows st rely s t p last) (hproc : s'.proc t = s.proc t)
    (howner : ∀ r, s'.owner r = some t ↔ s.owner r = some t)
    (hview : ∀ r, s.owner r = some t → st.view s'.db r = st.view s.db r)
    (hlast : rely last s'.db) : Knows st rely s' t p last where
  agrees := by
    refine ⟨fun x hx => ?_, by simp [h.snapshot]⟩
    rw [hview _ (h.owned x hx)]
    exact h.agrees.1 x hx
  snapshot := h.snapshot
  owned x hx := (howner x.1).mpr (h.owned x hx)
  pending := hproc ▸ h.pending
  session := hproc ▸ h.session
  last := hlast

variable [DecidableEq T]

/-- A step of `t` that leaves the locks alone. -/
theorem resume (h : Knows st rely s t p last) (p' : Known S D R V W) (hheld : p'.held = p.held)
    (hsnap : p'.snapshot = p.snapshot) (hlast : rely last' s.db) :
    Knows st rely (s.resume t ⟨x, p'.pending, p'.session⟩) t p' last' where
  agrees := ⟨fun y hy => h.agrees.1 y (hheld ▸ hy), by simp [hsnap, h.snapshot]⟩
  snapshot := hsnap.trans h.snapshot
  owned y hy := h.owned y (hheld ▸ hy)
  pending := by simp [Sys.resume]
  session := by simp [Sys.resume]
  last := hlast

/-- `t` gets row `r`. -/
theorem acquire [DecidableEq R] (h : Knows st rely s t p last) (hrefl : ∀ d, rely d d) {r : R} :
    Knows st rely ((s.acquire t r).resume t ⟨x, p.pending, p.session⟩) t
      (p.hold r (st.view s.db r)) s.db where
  agrees := h.agrees.hold r
  snapshot := h.snapshot
  owned := by
    intro y hy
    simp only [Sys.resume, Sys.acquire]
    split
    · rfl
    · next hne =>
        rcases List.mem_cons.mp hy with rfl | hy
        · exact absurd rfl hne
        · exact h.owned y hy
  pending := by simp [Sys.resume, Known.hold]
  session := by simp [Sys.resume, Known.hold]
  last := hrefl s.db

/-- The transaction of `t` ends without a commit. -/
theorem abort (h : Knows st rely s t p last) (hlast : rely last' s.db) :
    Knows st rely (s.abort t x) t p.abort last' where
  agrees := h.agrees.abort
  snapshot := h.snapshot
  owned := by simp [Known.abort]
  pending := by simp [Sys.abort, Sys.resume, Known.abort]
  session := by simpa [Sys.abort, Sys.resume, Known.abort] using h.session
  last := hlast

/-- And with one that leads to `d`. -/
theorem committed (h : Knows st rely s t p last) (hrefl : ∀ d, rely d d) (d : D) :
    Knows st rely { s.abort t x with db := d } t (p.committed d) d where
  agrees := Known.agrees_committed p d
  snapshot := by simp [Known.committed, h.snapshot]
  owned := by simp [Known.committed]
  pending := by simp [Sys.abort, Sys.resume, Known.committed]
  session := by simpa [Sys.abort, Sys.resume, Known.committed] using h.session
  last := hrefl d

variable [DecidableEq R] {ru : T → Rules S D R W} {G : T → Except E α → Known S D R V W → Prop}
  {ok : Sys S D R W E α T → T → Prop} {evs : List (Event D W T)} {d : D}
  {q : T → Prog S D R W E α × S}

/-- A step of another program, if all programs keep their rules. -/
theorem kept (hstart : ∀ u, wp st (ru u) (q u).1 (.start (q u).2 none) (G u))
    (hinv : Invariants ru d) (hgrant : ∀ s u, ok s u → GrantOk (ru u) s u)
    (hrun : Run st ok (.start d q) evs s) (hok : ok s u) {fault : Bool} {c : Option (List W)}
    (hs : s.step st u fault = some (c, s')) (hne : t ≠ u) (h : Knows st rely s t p last)
    (hlast : rely last s'.db) : Knows st rely s' t p last ∧ s'.proc t = s.proc t := by
  obtain ⟨htracks, hinvs, _⟩ := Run.tracks hstart hinv hgrant hrun
  obtain ⟨pu, hpu, _⟩ := htracks u
  obtain ⟨pu', _, hstep⟩ := step_self hpu (hinvs u) (hgrant s u hok) hs
  obtain ⟨pt, hpt, _⟩ := htracks t
  obtain ⟨hproc, howner⟩ := step_other hne hs
  exact ⟨h.other hproc howner (fun r hr => hstep.view hpu hpt hne hr) hlast, hproc⟩

end Knows

/-- What `t` has seen, from where the rest of its program goes on. -/
structure Follows (st : Store D R V W E) (P : D → Prop) (rely : D → D → Prop)
    (Q : Except E α → Known S D R V W → D → Prop) (s : Sys S D R W E α T) (t : T)
    (p : Known S D R V W) (last : D) : Prop where
  rest : explains st P rely (s.proc t).prog p last Q
  knows : Knows st rely s t p last

/-- How a program has ended. -/
theorem Follows.ended (h : Follows st P rely Q s t p last) {r : Except E α}
    (hended : s.ended t = some r) : Q r p last := by
  have hrest := h.rest
  rw [Sys.prog_of_ended hended] at hrest
  cases r <;> exact hrest

variable [DecidableEq T] [DecidableEq R]

/-- The program that moves follows its explanation. -/
theorem Follows.step (h : Follows st P rely Q s t p last) (hrefl : ∀ d, rely d d) (hP : P s.db)
    {fault : Bool} {c : Option (List W)} (hs : s.step st t fault = some (c, s')) :
    ∃ p' last', Follows st P rely Q s' t p' last' := by
  obtain ⟨hrest, hknows⟩ := h
  have hpend := hknows.pending
  have hsess := hknows.session
  have hsees : p.Sees st P rely last s.db := hknows.sees hP
  cases Sys.steps hs with
  | lock hp hfind =>
      rw [hp] at hrest
      have hgo := hrest.1 s.db hsees
      rw [hfind] at hgo
      rw [hpend, hsess]
      exact ⟨p, s.db, by simpa [Sys.resume] using hgo, hknows.resume p rfl rfl (hrefl _)⟩
  | grant hp hfind hfree =>
      rw [hp] at hrest
      have hgo := hrest.1 s.db hsees
      rw [hfind] at hgo
      rw [hpend, hsess]
      exact ⟨_, _, by simpa [Sys.resume] using hgo, hknows.acquire hrefl⟩
  | lockFails hp | readFails hp | commitFails hp =>
      rw [hp] at hrest
      exact ⟨_, _, by simpa [Sys.abort, Sys.resume] using hrest.2, hknows.abort hknows.last⟩
  | read hp =>
      rw [hp] at hrest
      rw [hpend, hsess]
      exact ⟨p, s.db, by simpa [Sys.resume] using hrest.1 s.db hsees,
        hknows.resume p rfl rfl (hrefl _)⟩
  | @write w k hp =>
      rw [hp] at hrest
      rw [hpend, hsess]
      have hnext : explains st P rely k (p.push w) last Q := hrest
      exact ⟨p.push w, last, by simpa [Sys.resume] using hnext,
        hknows.resume (p.push w) rfl rfl hknows.last⟩
  | @commit k d hp happly =>
      rw [hp] at hrest
      have hgo := hrest.1 s.db hsees
      rw [hpend] at happly
      rw [happly] at hgo
      exact ⟨_, _, by simpa [Sys.abort, Sys.resume] using hgo, hknows.committed hrefl d⟩
  | commitRefused hp happly =>
      rw [hp] at hrest
      have hgo := hrest.1 s.db hsees
      rw [hpend] at happly
      rw [happly] at hgo
      exact ⟨_, _, by simpa [Sys.abort, Sys.resume] using hgo, hknows.abort (hrefl _)⟩
  | @rollback k hp =>
      rw [hp] at hrest
      have hnext : explains st P rely k p.abort last Q := hrest
      exact ⟨_, _, by simpa [Sys.abort, Sys.resume] using hnext, hknows.abort hknows.last⟩
  | @session k hp =>
      rw [hp] at hrest
      rw [hpend, hsess]
      have hnext : explains st P rely (k p.session) p last Q := hrest
      exact ⟨p, last, by simpa [Sys.resume] using hnext, hknows.resume p rfl rfl hknows.last⟩
  | @setSession σ k hp =>
      rw [hp] at hrest
      rw [hpend]
      have hnext : explains st P rely k { p with session := σ } last Q := hrest
      exact ⟨{ p with session := σ }, last, by simpa [Sys.resume] using hnext,
        hknows.resume { p with session := σ } rfl rfl hknows.last⟩

variable {ru : T → Rules S D R W} {G : T → Except E α → Known S D R V W → Prop}
  {ok : Sys S D R W E α T → T → Prop} {evs : List (Event D W T)} {d : D}
  {q : T → Prog S D R W E α × S}

/-- **Programs end as explained**, if all programs keep their rules, what `t`
sees meets `P`, and every event leads to what `rely` allows. -/
theorem Run.explains (hstart : ∀ u, wp st (ru u) (q u).1 (.start (q u).2 none) (G u))
    (hinv : Invariants ru d) (hgrant : ∀ s u, ok s u → GrantOk (ru u) s u)
    (hrefl : ∀ d, rely d d) (htrans : ∀ a b c, rely a b → rely b c → rely a c)
    (hexplains : RowStore.explains st P rely (q t).1 (.start (q t).2 none) d Q)
    (h : Run st ok (.start d q) evs s) (hrely : ∀ ev ∈ evs, rely ev.before ev.after)
    (hhere : ∀ ev ∈ evs, ev.txn = t → P ev.before) :
    ∃ p last, Follows st P rely Q s t p last := by
  induction h with
  | nil => exact ⟨_, _, hexplains, .start hrefl⟩
  | @snoc evs s u fault c s' hrun hok hs ih =>
      obtain ⟨p, last, hfollows⟩ := ih (fun ev hev => hrely ev (by simp [hev]))
        fun ev hev => hhere ev (by simp [hev])
      by_cases htu : t = u
      · subst htu
        exact hfollows.step hrefl (hhere ⟨t, c, s.db, s'.db⟩ (by simp) rfl) hs
      · have hlast := htrans _ _ _ hfollows.knows.last (hrely ⟨u, c, s.db, s'.db⟩ (by simp))
        obtain ⟨hknows, hproc⟩ :=
          hfollows.knows.kept hstart hinv hgrant hrun hok hs htu hlast
        exact ⟨p, last, hproc ▸ hfollows.rest, hknows⟩

end

end RowStore
