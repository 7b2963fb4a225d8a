import FairDrop.RowStore.Program

/-!
# Guarantees of transaction programs

A predicate transformer for transaction programs.  `wp st ru x p Q` says of the
program `x`, started knowing `p`, that

* every row lock it requests meets `ru.request`,
* every unit of work it commits meets `ru.commit` and changes only rows it has
  locked, or rows that did not exist,
* it ends in a way that meets `Q`.

What a program knows (`Known`) is the content of the rows it holds locked:
nobody else can change those before it lets go.  A program that runs alone
knows more, namely the whole database (`snapshot`).  One `wp` fact therefore
serves both executions: `exec_sound` uses it with the snapshot,
`RowStore.Interleave` without.
-/

namespace RowStore

variable {S D R V W E α β : Type}

/-! ## Knowledge -/

/-- What a program knows of the database and of its own transaction. -/
structure Known (S D R V W : Type) where
  /-- Locked rows with the content they were read with. -/
  held : List (R × V)
  pending : List W
  session : S
  /-- The whole database, for a program that runs alone. -/
  snapshot : Option D
  commits : Nat

namespace Known

/-- The rows held locked. -/
def rows (p : Known S D R V W) : List R := p.held.map Prod.fst

/-- A view that is held is the view of a row held. -/
theorem mem_rows {p : Known S D R V W} {r : R} {v : V} (h : (r, v) ∈ p.held) : r ∈ p.rows :=
  List.mem_map.mpr ⟨(r, v), h, rfl⟩

/-- `d` is a database the program may be looking at. -/
def Agrees (st : Store D R V W E) (p : Known S D R V W) (d : D) : Prop :=
  (∀ x ∈ p.held, st.view d x.1 = x.2) ∧ ∀ d₀, p.snapshot = some d₀ → d = d₀

def hold (p : Known S D R V W) (r : R) (v : V) : Known S D R V W :=
  { p with held := (r, v) :: p.held }

def push (p : Known S D R V W) (w : W) : Known S D R V W :=
  { p with pending := p.pending ++ [w] }

/-- After a rollback or a failed statement. -/
def abort (p : Known S D R V W) : Known S D R V W := { p with held := [], pending := [] }

/-- After a commit that led to `d`. -/
def committed (p : Known S D R V W) (d : D) : Known S D R V W where
  held := []
  pending := []
  session := p.session
  snapshot := p.snapshot.map fun _ => d
  commits := p.commits + 1

/-- At the start of a program. -/
def start (s : S) (snap : Option D) : Known S D R V W := ⟨[], [], s, snap, 0⟩

section
variable {st : Store D R V W E} {p : Known S D R V W} {d : D}

/-- Locking a row and reading it agrees with the database read. -/
theorem Agrees.hold (h : p.Agrees st d) (r : R) : (p.hold r (st.view d r)).Agrees st d := by
  refine ⟨?_, h.2⟩
  intro x hx
  rcases List.mem_cons.mp hx with rfl | hx
  · rfl
  · exact h.1 x hx

/-- A write held back changes nothing that is known. -/
theorem Agrees.push (h : p.Agrees st d) (w : W) : (p.push w).Agrees st d := h

/-- After a rollback nothing is known that could disagree. -/
theorem Agrees.abort (h : p.Agrees st d) : p.abort.Agrees st d := ⟨by simp [Known.abort], h.2⟩

/-- After a commit only the snapshot is known. -/
theorem agrees_committed (p : Known S D R V W) (d' : D) : (p.committed d').Agrees st d' := by
  refine ⟨by simp [Known.committed], ?_⟩
  intro d₀ hd
  cases hs : p.snapshot with
  | none => simp [Known.committed, hs] at hd
  | some d₁ => simpa [Known.committed, hs] using hd

/-- A fresh transaction knows nothing but its snapshot. -/
theorem agrees_start (s : S) (snap : Option D) (h : ∀ d₀, snap = some d₀ → d = d₀) :
    (start s snap : Known S D R V W).Agrees st d :=
  ⟨by simp [start], h⟩

end

@[simp] theorem rows_hold (p : Known S D R V W) (r : R) (v : V) :
    (p.hold r v).rows = r :: p.rows := rfl

end Known

/-! ## The transformer -/

/-- What a program may assume of the database and of a granted lock, and its
obligations. -/
structure Rules (S D R W : Type) where
  /-- Assumed of every database that a statement sees. -/
  inv : D → Prop
  /-- Assumed of the session, the database and the row at a grant. -/
  grant : S → D → R → Prop
  /-- Shown of the rows already held, the database and the row at a request. -/
  request : List R → D → R → Prop
  /-- Shown of a commit; the flag says that the program runs alone. -/
  commit : Bool → List W → D → D → Prop

/-- The change from `d` to `d'` stays inside `rows`, apart from new rows. -/
def Frame (st : Store D R V W E) (rows : List R) (d d' : D) : Prop :=
  ∀ r, st.view d' r ≠ st.view d r → r ∈ rows ∨ ¬ st.present (st.view d r)

section
variable {st : Store D R V W E} {rows : List R} {d d₁ d₂ : D}

/-- A state is a change of itself inside any rows. -/
theorem Frame.refl (st : Store D R V W E) (rows : List R) (d : D) : Frame st rows d d :=
  fun _ h => absurd rfl h

/-- Two changes inside the rows make one. -/
theorem Frame.trans (h₁ : Frame st rows d d₁) (h₂ : Frame st rows d₁ d₂) : Frame st rows d d₂ := by
  intro r hr
  by_cases hview : st.view d₁ r = st.view d r
  · rw [← hview] at hr ⊢
    exact h₂ r hr
  · exact h₁ r hview

/-- A unit of work stays inside `rows` if each of its writes does. -/
theorem frame_applyAll {ws : List W}
    (hw : ∀ w ∈ ws, ∀ d d', st.apply w d = .ok d' → Frame st rows d d')
    (h : st.applyAll ws d = .ok d₁) : Frame st rows d d₁ := by
  induction ws generalizing d with
  | nil =>
      rw [Store.applyAll_nil] at h
      exact h ▸ Frame.refl st rows d
  | cons w ws ih =>
      obtain ⟨d₂, h₁, h₂⟩ := Store.applyAll_cons.mp h
      have hhead := hw w List.mem_cons_self d d₂ h₁
      exact hhead.trans (ih (fun w' hw' => hw w' (List.mem_cons_of_mem w hw')) h₂)

end

def wp (st : Store D R V W E) (ru : Rules S D R W) :
    Prog S D R W E α → Known S D R V W → (Except E α → Known S D R V W → Prop) → Prop
  | .pure a, p, Q => Q (.ok a) p
  | .fail e, p, Q => Q (.error e) p
  | .lock find k, p, Q =>
      (∀ d, p.Agrees st d → ru.inv d → match find d with
        | none => wp st ru (k (.ok d)) p Q
        | some r => st.present (st.view d r) ∧ ru.request p.rows d r ∧
            (ru.grant p.session d r → wp st ru (k (.ok d)) (p.hold r (st.view d r)) Q)) ∧
      wp st ru (k (.error st.outage)) p.abort Q
  | .read k, p, Q =>
      (∀ d, p.Agrees st d → ru.inv d → wp st ru (k (.ok d)) p Q) ∧
      wp st ru (k (.error st.outage)) p.abort Q
  | .write w k, p, Q => wp st ru k (p.push w) Q
  | .commit k, p, Q =>
      (∀ d, p.Agrees st d → ru.inv d → match st.applyAll p.pending d with
        | .ok d' => ru.commit p.snapshot.isSome p.pending d d' ∧ Frame st p.rows d d' ∧
            wp st ru (k (.ok ())) (p.committed d') Q
        | .error e => wp st ru (k (.error e)) p.abort Q) ∧
      wp st ru (k (.error st.outage)) p.abort Q
  | .rollback k, p, Q => wp st ru k p.abort Q
  | .session k, p, Q => wp st ru (k p.session) p Q
  | .setSession s k, p, Q => wp st ru k { p with session := s } Q

section
variable {st : Store D R V W E} {ru : Rules S D R W}

/-- A weaker end condition follows. -/
theorem wp_mono {x : Prog S D R W E α} {p : Known S D R V W}
    {Q Q' : Except E α → Known S D R V W → Prop} (h : ∀ r p, Q r p → Q' r p)
    (hx : wp st ru x p Q) : wp st ru x p Q' := by
  induction x generalizing p with
  | pure a => exact h _ _ hx
  | fail e => exact h _ _ hx
  | lock find k ih =>
      refine ⟨fun d hd hi => ?_, ih _ hx.2⟩
      have hgo := hx.1 d hd hi
      split
      · next hf => rw [hf] at hgo; exact ih _ hgo
      · next r hf =>
          rw [hf] at hgo
          exact ⟨hgo.1, hgo.2.1, fun hg => ih _ (hgo.2.2 hg)⟩
  | read k ih => exact ⟨fun d hd hi => ih _ (hx.1 d hd hi), ih _ hx.2⟩
  | write w k ih => exact ih hx
  | commit k ih =>
      refine ⟨fun d hd hi => ?_, ih _ hx.2⟩
      have hgo := hx.1 d hd hi
      split
      · next d' ha =>
          rw [ha] at hgo
          exact ⟨hgo.1, hgo.2.1, ih _ hgo.2.2⟩
      · next e ha => rw [ha] at hgo; exact ih _ hgo
  | rollback k ih => exact ih hx
  | session k ih => exact ih _ hx
  | setSession s k ih => exact ih hx

/-- Who is to end with few commits has not made more. -/
theorem wp_commits_le {x : Prog S D R W E α} {p : Known S D R V W} {n : Nat}
    {Q : Except E α → Known S D R V W → Prop} (h : ∀ r p, Q r p → p.commits ≤ n)
    (hx : wp st ru x p Q) : p.commits ≤ n := by
  induction x generalizing p with
  | pure a | fail e => exact h _ _ hx
  | lock find k ih | read k ih | commit k ih =>
      have hle : p.abort.commits ≤ n := ih _ hx.2
      exact hle
  | write w k ih =>
      have hle : (p.push w).commits ≤ n := ih hx
      exact hle
  | rollback k ih =>
      have hle : p.abort.commits ≤ n := ih hx
      exact hle
  | session k ih => exact ih _ hx
  | setSession s k ih =>
      have hle : ({ p with session := s } : Known S D R V W).commits ≤ n := ih hx
      exact hle

/-- Rules that assume more and ask less. -/
structure Rules.Weakens (ru ru' : Rules S D R W) : Prop where
  inv : ∀ d, ru'.inv d → ru.inv d
  grant : ∀ s d r, ru'.grant s d r → ru.grant s d r
  request : ∀ rows d r, ru.request rows d r → ru'.request rows d r
  commit : ∀ alone ws d d', ru.commit alone ws d d' → ru'.commit alone ws d d'

/-- A program that meets its rules meets weaker ones. -/
theorem wp_weaken {ru' : Rules S D R W} (h : ru.Weakens ru') {x : Prog S D R W E α}
    {p : Known S D R V W} {Q : Except E α → Known S D R V W → Prop} (hx : wp st ru x p Q) :
    wp st ru' x p Q := by
  induction x generalizing p with
  | pure a => exact hx
  | fail e => exact hx
  | lock find k ih =>
      refine ⟨fun d hd hi => ?_, ih _ hx.2⟩
      have hgo := hx.1 d hd (h.inv d hi)
      split
      · next hf => rw [hf] at hgo; exact ih _ hgo
      · next r hf =>
          rw [hf] at hgo
          exact ⟨hgo.1, h.request _ _ _ hgo.2.1, fun hg => ih _ (hgo.2.2 (h.grant _ _ _ hg))⟩
  | read k ih => exact ⟨fun d hd hi => ih _ (hx.1 d hd (h.inv d hi)), ih _ hx.2⟩
  | write w k ih => exact ih hx
  | commit k ih =>
      refine ⟨fun d hd hi => ?_, ih _ hx.2⟩
      have hgo := hx.1 d hd (h.inv d hi)
      split
      · next d' ha =>
          rw [ha] at hgo
          exact ⟨h.commit _ _ _ _ hgo.1, hgo.2.1, ih _ hgo.2.2⟩
      · next e ha => rw [ha] at hgo; exact ih _ hgo
  | rollback k ih => exact ih hx
  | session k ih => exact ih _ hx
  | setSession s k ih => exact ih hx

/-! ## Rules for the program constructs -/

@[simp] theorem wp_pure (a : α) (p : Known S D R V W) (Q : Except E α → Known S D R V W → Prop) :
    wp st ru (Pure.pure a : Prog S D R W E α) p Q = Q (.ok a) p := rfl

/-- A sequence meets its end condition if the first part ends where the second
can start; a failure of the first part is a failure of the whole. -/
theorem wp_bind {x : Prog S D R W E α} {f : α → Prog S D R W E β} {p : Known S D R V W}
    {Q : Except E β → Known S D R V W → Prop}
    (h : wp st ru x p fun r p' => match r with
      | .ok a => wp st ru (f a) p' Q
      | .error e => Q (.error e) p') :
    wp st ru (x >>= f) p Q := by
  change wp st ru (x.bind f) p Q
  induction x generalizing p with
  | pure a => exact h
  | fail e => exact h
  | lock find k ih =>
      refine ⟨fun d hd hi => ?_, ih _ h.2⟩
      have hgo := h.1 d hd hi
      split
      · next hf => rw [hf] at hgo; exact ih _ hgo
      · next r hf =>
          rw [hf] at hgo
          exact ⟨hgo.1, hgo.2.1, fun hg => ih _ (hgo.2.2 hg)⟩
  | read k ih => exact ⟨fun d hd hi => ih _ (h.1 d hd hi), ih _ h.2⟩
  | write w k ih => exact ih h
  | commit k ih =>
      refine ⟨fun d hd hi => ?_, ih _ h.2⟩
      have hgo := h.1 d hd hi
      split
      · next d' ha =>
          rw [ha] at hgo
          exact ⟨hgo.1, hgo.2.1, ih _ hgo.2.2⟩
      · next e ha => rw [ha] at hgo; exact ih _ hgo
  | rollback k ih => exact ih h
  | session k ih => exact ih _ h
  | setSession s k ih => exact ih h

/-- A mapped result satisfies what its source satisfies with the map in between. -/
theorem wp_map {x : Prog S D R W E α} {f : α → β} {p : Known S D R V W}
    {Q : Except E β → Known S D R V W → Prop}
    (h : wp st ru x p fun r p' => Q (r.map f) p') : wp st ru (f <$> x) p Q := by
  change wp st ru (x >>= fun a => pure (f a)) p Q
  apply wp_bind
  refine wp_mono (fun r p' hr => ?_) h
  cases r with
  | ok a => exact hr
  | error e => exact hr

/-- A guarded program: the handler starts where the body failed. -/
theorem wp_tryCatch {x : Prog S D R W E α} {h : E → Prog S D R W E α} {p : Known S D R V W}
    {Q : Except E α → Known S D R V W → Prop}
    (hx : wp st ru x p fun r p' => match r with
      | .ok a => Q (.ok a) p'
      | .error e => wp st ru (h e) p' Q) :
    wp st ru (tryCatch x h) p Q := by
  change wp st ru (x.catchFail h) p Q
  induction x generalizing p with
  | pure a => exact hx
  | fail e => exact hx
  | lock find k ih =>
      refine ⟨fun d hd hi => ?_, ih _ hx.2⟩
      have hgo := hx.1 d hd hi
      split
      · next hf => rw [hf] at hgo; exact ih _ hgo
      · next r hf =>
          rw [hf] at hgo
          exact ⟨hgo.1, hgo.2.1, fun hg => ih _ (hgo.2.2 hg)⟩
  | read k ih => exact ⟨fun d hd hi => ih _ (hx.1 d hd hi), ih _ hx.2⟩
  | write w k ih => exact ih hx
  | commit k ih =>
      refine ⟨fun d hd hi => ?_, ih _ hx.2⟩
      have hgo := hx.1 d hd hi
      split
      · next d' ha =>
          rw [ha] at hgo
          exact ⟨hgo.1, hgo.2.1, ih _ hgo.2.2⟩
      · next e ha => rw [ha] at hgo; exact ih _ hgo
  | rollback k ih => exact ih hx
  | session k ih => exact ih _ hx
  | setSession s k ih => exact ih hx

/-- A pure outcome satisfies what holds of it. -/
theorem wp_ofExcept {x : Except E α} {p : Known S D R V W}
    {Q : Except E α → Known S D R V W → Prop} (h : Q x p) :
    wp st ru (Prog.ofExcept x) p Q := by
  cases x with
  | ok a => exact h
  | error e => exact h

@[simp] theorem wp_save (w : W) (p : Known S D R V W)
    (Q : Except E Unit → Known S D R V W → Prop) :
    wp st ru (Prog.save w) p Q = Q (.ok ()) (p.push w) := rfl

/-- Several writes held back at once. -/
theorem wp_saveAll (ws : List W) (p : Known S D R V W)
    (Q : Except E Unit → Known S D R V W → Prop) :
    wp st ru (Prog.saveAll ws) p Q = Q (.ok ()) { p with pending := p.pending ++ ws } := by
  induction ws generalizing p with
  | nil => simp [Prog.saveAll, wp]
  | cons w ws ih =>
      have hstep : wp st ru (Prog.saveAll (w :: ws)) p Q = wp st ru (Prog.saveAll ws) (p.push w) Q :=
        rfl
      rw [hstep, ih]
      simp [Known.push]

@[simp] theorem wp_getSession (p : Known S D R V W) (Q : Except E S → Known S D R V W → Prop) :
    wp st ru Prog.getSession p Q = Q (.ok p.session) p := rfl

/-- A select reads a database that agrees with what is known, or the connection fails. -/
theorem wp_select {p : Known S D R V W} {Q : Except E D → Known S D R V W → Prop}
    (hok : ∀ d, p.Agrees st d → ru.inv d → Q (.ok d) p) (herr : Q (.error st.outage) p.abort) :
    wp st ru Prog.select p Q :=
  ⟨hok, herr⟩

/-- A select for update finds no row, or gets the lock and reads it, or fails. -/
theorem wp_selectForUpdate {find : D → Option R} {p : Known S D R V W}
    {Q : Except E D → Known S D R V W → Prop}
    (hnone : ∀ d, p.Agrees st d → ru.inv d → find d = none → Q (.ok d) p)
    (hsome : ∀ d r, p.Agrees st d → ru.inv d → find d = some r →
      st.present (st.view d r) ∧ ru.request p.rows d r ∧
        (ru.grant p.session d r → Q (.ok d) (p.hold r (st.view d r))))
    (herr : Q (.error st.outage) p.abort) :
    wp st ru (Prog.selectForUpdate find) p Q := by
  refine ⟨fun d hd hi => ?_, herr⟩
  split
  · next hf => exact hnone d hd hi hf
  · next r hf => exact hsome d r hd hi hf

/-- A commit whose refusal matters. -/
theorem wp_commitWork_cases {p : Known S D R V W} {Q : Except E Unit → Known S D R V W → Prop}
    (hok : ∀ d d', p.Agrees st d → ru.inv d → st.applyAll p.pending d = .ok d' →
      ru.commit p.snapshot.isSome p.pending d d' ∧ Frame st p.rows d d' ∧
        Q (.ok ()) (p.committed d'))
    (herr : ∀ d e, st.applyAll p.pending d = .error e → Q (.error e) p.abort)
    (hout : Q (.error st.outage) p.abort) : wp st ru Prog.commitWork p Q := by
  refine ⟨fun d hd hi => ?_, hout⟩
  split
  · next d' ha => exact hok d d' hd hi ha
  · next e ha => exact herr d e ha

/-- A commit applies the writes held back, leaving the rows locked by nobody else alone, or
fails. -/
theorem wp_commitWork {p : Known S D R V W} {Q : Except E Unit → Known S D R V W → Prop}
    (hok : ∀ d d', p.Agrees st d → ru.inv d → st.applyAll p.pending d = .ok d' →
      ru.commit p.snapshot.isSome p.pending d d' ∧ Frame st p.rows d d' ∧
        Q (.ok ()) (p.committed d'))
    (herr : ∀ e, Q (.error e) p.abort) :
    wp st ru Prog.commitWork p Q :=
  wp_commitWork_cases hok (fun _ e _ => herr e) (herr _)

/-- A block in a session of its own ends with everything given up. -/
theorem wp_inSession {x : Prog S D R W E α} {p : Known S D R V W}
    {Q : Except E α → Known S D R V W → Prop} (h : wp st ru x p fun r p' => Q r p'.abort) :
    wp st ru (Prog.inSession x) p Q := by
  apply wp_tryCatch
  apply wp_bind
  refine wp_mono (fun r p' hr => ?_) h
  cases r with
  | ok a => exact hr
  | error e => exact hr

/-! ## Programs that run alone -/

/-- The commits that meet the commit rule keep the invariant. -/
def Rules.Keeps (ru : Rules S D R W) : Prop :=
  ∀ alone ws d d', ru.inv d → ru.commit alone ws d d' → ru.inv d'

/-- A program run alone meets its end condition, and every commit it made meets
the commit rule. -/
theorem exec_sound {x : Prog S D R W E α} (fs : List Bool) {d : D} {p : Known S D R V W}
    {Q : Except E α → Known S D R V W → Prop} (hgrant : ∀ s d r, ru.grant s d r)
    (hkeep : ru.Keeps) (hx : wp st ru x p Q) (hd : p.Agrees st d) (hi : ru.inv d) :
    ∃ p' : Known S D R V W,
      let o := exec st x fs d p.pending p.session
      Q o.value p' ∧ p'.Agrees st o.db ∧ p'.commits = p.commits + o.commits.length ∧
        Linked d o.commits o.db ∧
        ∀ c ∈ o.commits, ru.commit p.snapshot.isSome c.writes c.before c.after := by
  induction x generalizing fs d p with
  | pure a => exact ⟨p, hx, hd, by simp [exec], rfl, by simp [exec]⟩
  | fail e => exact ⟨p, hx, hd, by simp [exec], rfl, by simp [exec]⟩
  | lock find k ih =>
      by_cases hf : fs.headD false = true
      · simp only [exec, if_pos hf]
        exact ih _ _ hx.2 hd.abort hi
      · simp only [exec, if_neg hf]
        have hgo := hx.1 d hd hi
        split at hgo
        · exact ih _ _ hgo hd hi
        · next r _ =>
            have hnext := hgo.2.2 (hgrant _ _ _)
            exact ih (.ok d) _ (p := p.hold r (st.view d r)) hnext (hd.hold r) hi
  | read k ih =>
      by_cases hf : fs.headD false = true
      · simp only [exec, if_pos hf]
        exact ih _ _ hx.2 hd.abort hi
      · simp only [exec, if_neg hf]
        exact ih _ _ (hx.1 d hd hi) hd hi
  | write w k ih => exact ih _ hx (hd.push w) hi
  | commit k ih =>
      by_cases hf : fs.headD false = true
      · simp only [exec, if_pos hf]
        exact ih _ _ hx.2 hd.abort hi
      · simp only [exec, if_neg hf]
        have hgo := hx.1 d hd hi
        cases ha : st.applyAll p.pending d with
        | ok d' =>
            rw [ha] at hgo
            have hi' := hkeep _ _ d d' hi hgo.1
            obtain ⟨p', hQ, hag, hc, hl, hr⟩ :=
              ih _ fs.tail hgo.2.2 (Known.agrees_committed p d') hi'
            refine ⟨p', hQ, hag, ?_, ⟨rfl, hl⟩, ?_⟩
            · rw [hc]; simp [Known.committed]; omega
            · intro c hcm
              rcases List.mem_cons.mp hcm with rfl | hcm
              · exact hgo.1
              · have := hr c hcm
                simpa [Known.committed] using this
        | error e =>
            rw [ha] at hgo
            exact ih _ _ hgo hd.abort hi
  | rollback k ih => exact ih _ hx hd.abort hi
  | session k ih => exact ih _ _ hx hd hi
  | setSession s k ih => exact ih _ hx hd hi

/-- A program that commits at most once, run alone, either leaves the database
as it was or makes one commit that meets the commit rule. -/
theorem exec_cases {x : Prog S D R W E α} {s : S} {d : D}
    {Q : Except E α → Known S D R V W → Prop} (hgrant : ∀ s d r, ru.grant s d r)
    (hkeep : ru.Keeps) (hx : wp st ru x (.start s (some d)) Q)
    (hQ : ∀ r p, Q r p → p.commits ≤ 1) (hi : ru.inv d) (fs : List Bool) :
    ((exec st x fs d [] s).commits = [] ∧ (exec st x fs d [] s).db = d) ∨
      ∃ ws, (exec st x fs d [] s).commits = [⟨d, ws, (exec st x fs d [] s).db⟩] ∧
        ru.commit true ws d (exec st x fs d [] s).db := by
  obtain ⟨p', hq, _, hc, hl, hr⟩ :=
    exec_sound fs (d := d) hgrant hkeep hx (Known.agrees_start s (some d) (by simp)) hi
  have hle := hQ _ _ hq
  simp only [Known.start, Nat.zero_add] at hc hl hr
  cases hcs : (exec st x fs d [] s).commits with
  | nil =>
      rw [hcs] at hl
      exact .inl ⟨rfl, hl.symm⟩
  | cons c cs =>
      rw [hcs] at hl hr hc
      cases cs with
      | cons c' cs' => simp at hc; omega
      | nil =>
          obtain ⟨hb, ha⟩ := hl
          obtain ⟨b, ws, a⟩ := c
          simp only [Linked] at ha hb
          subst hb
          have hrule := hr _ List.mem_cons_self
          refine .inr ⟨ws, by rw [← ha], ?_⟩
          rw [← ha]
          exact hrule

end

end RowStore
