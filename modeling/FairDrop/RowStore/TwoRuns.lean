import FairDrop.RowStore.Interleave
import FairDrop.RowStore.Table
import Mathlib.Data.List.Forall2

/-!
# Two runs

Two programs that differ in what they read and write but not in what they do
(`Twin`): they ask for the same rows, and send statements of the same kind in
the same order.  Two systems of such programs on two databases go through the
same steps of a schedule (`Alike.exec`), so whatever is equal in related
databases is equal all the way.
-/

namespace RowStore

variable {S D R V W E α β T : Type}

/-! ## Answers -/

/-- Two results that are both good and related, or the same failure. -/
inductive ExceptRel (r : α → β → Prop) : Except E α → Except E β → Prop where
  | ok {a : α} {b : β} (h : r a b) : ExceptRel r (.ok a) (.ok b)
  | error (e : E) : ExceptRel r (.error e) (.error e)

/-- Equal results are related when every value is related to itself. -/
theorem ExceptRel.refl {r : α → α → Prop} (h : ∀ a, r a a) (x : Except E α) : ExceptRel r x x := by
  cases x with
  | ok a => exact .ok (h a)
  | error e => exact .error e

/-- Related results followed by related continuations are related. -/
theorem ExceptRel.bind {γ δ : Type} {r : α → β → Prop} {r' : γ → δ → Prop} {x : Except E α}
    {y : Except E β} {f : α → Except E γ} {g : β → Except E δ} (h : ExceptRel r x y)
    (hfg : ∀ a b, r a b → ExceptRel r' (f a) (g b)) : ExceptRel r' (x >>= f) (y >>= g) := by
  cases h with
  | ok h => exact hfg _ _ h
  | error e => exact .error e

/-- One result followed by related continuations. -/
theorem ExceptRel.bind_same {γ δ : Type} {r : γ → δ → Prop} {x : Except E α} {f : α → Except E γ}
    {g : α → Except E δ} (h : ∀ a, ExceptRel r (f a) (g a)) : ExceptRel r (x >>= f) (x >>= g) :=
  .bind (.refl (fun _ => rfl) x) fun a _ hab => hab ▸ h a

/-! ## Programs -/

/-- The programs do the same, on databases related by `dbs`, with writes related by
`writes`, up to results related by `results`. -/
inductive Twin (dbs : D → D → Prop) (writes : W → W → Prop) (results : α → α → Prop) :
    Prog S D R W E α → Prog S D R W E α → Prop where
  | pure {a b : α} (h : results a b) : Twin dbs writes results (.pure a) (.pure b)
  | fail (e : E) : Twin dbs writes results (.fail e) (.fail e)
  | lock {find find' : D → Option R} {k k' : Except E D → Prog S D R W E α}
      (hfind : ∀ d d', dbs d d' → find d = find' d')
      (hok : ∀ d d', dbs d d' → Twin dbs writes results (k (.ok d)) (k' (.ok d')))
      (herror : ∀ e, Twin dbs writes results (k (.error e)) (k' (.error e))) :
      Twin dbs writes results (.lock find k) (.lock find' k')
  | read {k k' : Except E D → Prog S D R W E α}
      (hok : ∀ d d', dbs d d' → Twin dbs writes results (k (.ok d)) (k' (.ok d')))
      (herror : ∀ e, Twin dbs writes results (k (.error e)) (k' (.error e))) :
      Twin dbs writes results (.read k) (.read k')
  | write {w w' : W} {k k' : Prog S D R W E α} (hw : writes w w') (hk : Twin dbs writes results k k') :
      Twin dbs writes results (.write w k) (.write w' k')
  | commit {k k' : Except E Unit → Prog S D R W E α} (hk : ∀ x, Twin dbs writes results (k x) (k' x)) :
      Twin dbs writes results (.commit k) (.commit k')
  | rollback {k k' : Prog S D R W E α} (hk : Twin dbs writes results k k') :
      Twin dbs writes results (.rollback k) (.rollback k')
  | session {k k' : S → Prog S D R W E α} (hk : ∀ s, Twin dbs writes results (k s) (k' s)) :
      Twin dbs writes results (.session k) (.session k')
  | setSession (s : S) {k k' : Prog S D R W E α} (hk : Twin dbs writes results k k') :
      Twin dbs writes results (.setSession s k) (.setSession s k')

section
variable {dbs : D → D → Prop} {writes : W → W → Prop} {results : α → α → Prop}
  {results' : β → β → Prop}
  {x y : Prog S D R W E α} {f g : α → Prog S D R W E β}

/-- Twins followed by twins are twins. -/
theorem twin_bind (h : Twin dbs writes results x y)
    (hfg : ∀ a b, results a b → Twin dbs writes results' (f a) (g b)) :
    Twin dbs writes results' (x >>= f) (y >>= g) := by
  change Twin dbs writes results' (x.bind f) (y.bind g)
  induction h with
  | pure h => exact hfg _ _ h
  | fail e => exact .fail e
  | lock hfind _ _ ihok iherror => exact .lock hfind ihok iherror
  | read _ _ ihok iherror => exact .read ihok iherror
  | write hw _ ih => exact .write hw ih
  | commit _ ih => exact .commit ih
  | rollback _ ih => exact .rollback ih
  | session _ ih => exact .session ih
  | setSession s _ ih => exact .setSession s ih

/-- Twins with twin handlers are twins. -/
theorem twin_tryCatch {handle handle' : E → Prog S D R W E α} (h : Twin dbs writes results x y)
    (hhandle : ∀ e, Twin dbs writes results (handle e) (handle' e)) :
    Twin dbs writes results (tryCatch x handle) (tryCatch y handle') := by
  change Twin dbs writes results (x.catchFail handle) (y.catchFail handle')
  induction h with
  | pure h => exact .pure h
  | fail e => exact hhandle e
  | lock hfind _ _ ihok iherror => exact .lock hfind ihok iherror
  | read _ _ ihok iherror => exact .read ihok iherror
  | write hw _ ih => exact .write hw ih
  | commit _ ih => exact .commit ih
  | rollback _ ih => exact .rollback ih
  | session _ ih => exact .session ih
  | setSession s _ ih => exact .setSession s ih

/-- Twins stay twins when their session is closed behind them. -/
theorem twin_inSession (h : Twin dbs writes results x y) :
    Twin dbs writes results (Prog.inSession x) (Prog.inSession y) :=
  twin_tryCatch (twin_bind h fun _ _ hab => .rollback (.pure hab)) fun e => .rollback (.fail e)

/-- Two programs that only return related values are twins. -/
theorem twin_pure {a b : α} (h : results a b) :
    Twin dbs writes results (pure a : Prog S D R W E α) (pure b) := .pure h

/-- Two programs that only raise the same error are twins. -/
theorem twin_throw (e : E) : Twin dbs writes results (throw e : Prog S D R W E α) (throw e) := .fail e

/-- Twins whose results are mapped to related ones. -/
theorem twin_map {h h' : α → β} (hxy : Twin dbs writes results x y)
    (hmap : ∀ a b, results a b → results' (h a) (h' b)) :
    Twin dbs writes results' (h <$> x) (h' <$> y) :=
  twin_bind hxy fun a b hab => twin_pure (hmap a b hab)

/-- Two pure outcomes that are related are twins. -/
theorem twin_ofExcept {u v : Except E α} (h : ExceptRel results u v) :
    Twin dbs writes results (Prog.ofExcept u : Prog S D R W E α) (Prog.ofExcept v) := by
  cases h with
  | ok h => exact .pure h
  | error e => exact .fail e

/-- Two selects read related databases. -/
theorem twin_select : Twin dbs writes dbs (Prog.select : Prog S D R W E D) Prog.select :=
  .read (fun _ _ h => .pure h) fun e => .fail e

/-- Two selects for update that look for the same row in related databases. -/
theorem twin_selectForUpdate {find find' : D → Option R} (h : ∀ d d', dbs d d' → find d = find' d') :
    Twin dbs writes dbs (Prog.selectForUpdate find : Prog S D R W E D) (Prog.selectForUpdate find') :=
  .lock h (fun _ _ h => .pure h) fun e => .fail e

/-- Two related writes, held back until the commit. -/
theorem twin_save {w w' : W} (h : writes w w') :
    Twin dbs writes (fun _ _ => True) (Prog.save w : Prog S D R W E Unit) (Prog.save w') :=
  .write h (.pure trivial)

/-- Two commits. -/
theorem twin_commitWork :
    Twin dbs writes (fun _ _ => True) (Prog.commitWork : Prog S D R W E Unit) Prog.commitWork :=
  .commit fun x => by
    cases x with
    | ok _ => exact .pure trivial
    | error e => exact .fail e

end

/-! ## Systems -/

section
variable (dbs : D → D → Prop) (writes : W → W → Prop) (results : α → α → Prop)

/-- The same program, up to the data. -/
structure ProcAlike (p q : Proc S D R W E α) : Prop where
  prog : Twin dbs writes results p.prog q.prog
  pending : List.Forall₂ writes p.pending q.pending
  session : p.session = q.session

/-- The same state of a run, up to the data. -/
structure Alike (s s' : Sys S D R W E α T) : Prop where
  db : dbs s.db s'.db
  owner : s.owner = s'.owner
  proc : ∀ t, ProcAlike dbs writes results (s.proc t) (s'.proc t)

/-- The same step, up to the data. -/
structure EventAlike (ev ev' : Event D W T) : Prop where
  txn : ev.txn = ev'.txn
  commit : ev.commit.isSome = ev'.commit.isSome
  before : dbs ev.before ev'.before
  after : dbs ev.after ev'.after

end

section
variable {st : Store D R V W E} {dbs : D → D → Prop} {writes : W → W → Prop}
  {results : α → α → Prop}

/-- Related writes do the same to related databases. -/
def Store.Respects (st : Store D R V W E) (dbs : D → D → Prop) (writes : W → W → Prop) : Prop :=
  ∀ w w' d d', writes w w' → dbs d d' → ExceptRel dbs (st.apply w d) (st.apply w' d')

/-- Related lists of writes take related databases to related ones, or fail alike. -/
theorem Store.Respects.applyAll (hst : st.Respects dbs writes) {ws ws' : List W} {d d' : D}
    (hws : List.Forall₂ writes ws ws') (hd : dbs d d') :
    ExceptRel dbs (st.applyAll ws d) (st.applyAll ws' d') := by
  induction hws generalizing d d' with
  | nil => exact .ok hd
  | @cons w w' ws ws' hw _ ih =>
      have hfirst := hst w w' d d' hw hd
      rw [Store.applyAll, Store.applyAll]
      revert hfirst
      generalize st.apply w d = x
      generalize st.apply w' d' = y
      rintro (h | e)
      · exact ih h
      · exact .error e

variable {s s' : Sys S D R W E α T}

section
variable [DecidableEq T]

/-- Alike systems stay alike when one transaction resumes with twins. -/
theorem Alike.resume (h : Alike dbs writes results s s') {t : T} {p q : Proc S D R W E α}
    (hpq : ProcAlike dbs writes results p q) :
    Alike dbs writes results (s.resume t p) (s'.resume t q) where
  db := h.db
  owner := h.owner
  proc u := by
    by_cases hu : u = t
    · simpa [Sys.resume, hu] using hpq
    · simpa [Sys.resume, hu] using h.proc u

end

/-- Alike systems stay alike when a transaction gets a lock. -/
theorem Alike.acquire [DecidableEq R] (h : Alike dbs writes results s s') (t : T) (r : R) :
    Alike dbs writes results (s.acquire t r) (s'.acquire t r) where
  db := h.db
  owner := by rw [Sys.acquire, Sys.acquire, h.owner]
  proc := h.proc

variable [DecidableEq T]

/-- Alike systems stay alike when a transaction is aborted. -/
theorem Alike.abort (h : Alike dbs writes results s s') {t : T} {x y : Prog S D R W E α}
    (hxy : Twin dbs writes results x y) :
    Alike dbs writes results (s.abort t x) (s'.abort t y) := by
  have hrelease : Alike dbs writes results (s.release t) (s'.release t) :=
    { db := h.db
      owner := by rw [Sys.release, Sys.release, h.owner]
      proc := h.proc }
  exact hrelease.resume ⟨hxy, .nil, (h.proc t).session⟩

/-- **Steps are alike**: in both systems `t` waits, or makes a step of the same kind. -/
theorem Alike.step [DecidableEq R] (hst : st.Respects dbs writes)
    (h : Alike dbs writes results s s') (t : T) (fault : Bool) :
    Option.Rel (fun x x' => x.1.isSome = x'.1.isSome ∧ Alike dbs writes results x.2 x'.2)
      (s.step st t fault) (s'.step st t fault) := by
  have hproc := h.proc t
  unfold Sys.step
  revert hproc
  generalize s.proc t = p
  generalize s'.proc t = q
  rintro ⟨hprog, hpending, hsession⟩
  obtain ⟨x, ws, σ⟩ := p
  obtain ⟨y, ws', σ'⟩ := q
  subst hsession
  dsimp only at hprog hpending ⊢
  cases hprog with
  | pure hab => exact .none
  | fail e => exact .none
  | lock hfind hok herror =>
      cases fault with
      | true => exact .some ⟨rfl, h.abort (herror _)⟩
      | false =>
          simp only [Bool.false_eq_true, if_false]
          rw [← hfind _ _ h.db, ← h.owner]
          split
          · exact .some ⟨rfl, h.resume ⟨hok _ _ h.db, hpending, rfl⟩⟩
          · next r _ =>
              split
              · exact .some ⟨rfl, (h.acquire t r).resume ⟨hok _ _ h.db, hpending, rfl⟩⟩
              · exact .none
  | read hok herror =>
      cases fault with
      | true => exact .some ⟨rfl, h.abort (herror _)⟩
      | false => exact .some ⟨rfl, h.resume ⟨hok _ _ h.db, hpending, rfl⟩⟩
  | write hw hk => exact .some ⟨rfl, h.resume ⟨hk, List.rel_append hpending (.cons hw .nil), rfl⟩⟩
  | commit hk =>
      cases fault with
      | true => exact .some ⟨rfl, h.abort (hk _)⟩
      | false =>
          have happly := hst.applyAll hpending h.db
          simp only [Bool.false_eq_true, if_false]
          revert happly
          generalize st.applyAll ws s.db = a
          generalize st.applyAll ws' s'.db = b
          rintro (hd | e)
          · exact .some ⟨rfl, { h.abort (hk _) with db := hd }⟩
          · exact .some ⟨rfl, h.abort (hk _)⟩
  | rollback hk => exact .some ⟨rfl, h.abort hk⟩
  | session hk => exact .some ⟨rfl, h.resume ⟨hk _, hpending, rfl⟩⟩
  | setSession σ' hk => exact .some ⟨rfl, h.resume ⟨hk, hpending, rfl⟩⟩

variable [DecidableEq R]

/-- **Runs are alike**: a schedule that one system goes through is one that the other
goes through, event by event. -/
theorem Alike.exec (hst : st.Respects dbs writes) (h : Alike dbs writes results s s')
    (sched : List (T × Bool)) : Option.Rel (fun x x' =>
      List.Forall₂ (EventAlike dbs) x.1 x'.1 ∧ Alike dbs writes results x.2 x'.2)
    (s.exec st (fun _ _ => true) sched) (s'.exec st (fun _ _ => true) sched) := by
  induction sched generalizing s s' with
  | nil => exact .some ⟨.nil, h⟩
  | cons x sched ih =>
      obtain ⟨t, fault⟩ := x
      have hstep := h.step hst t fault
      rw [Sys.exec, Sys.exec, if_pos rfl, if_pos rfl]
      revert hstep
      generalize s.step st t fault = a
      generalize s'.step st t fault = b
      intro hstep
      cases hstep with
      | none => exact .none
      | @some a b hab =>
          obtain ⟨hcommit, hnext⟩ := hab
          have hrest := ih hnext
          dsimp only
          revert hrest
          generalize a.2.exec st (fun _ _ => true) sched = u
          generalize b.2.exec st (fun _ _ => true) sched = v
          intro hrest
          cases hrest with
          | none => exact .none
          | some huv => exact .some ⟨.cons ⟨rfl, hcommit, h.db, hnext.db⟩ huv.1, huv.2⟩

omit [DecidableEq T] [DecidableEq R] in
/-- Twins started on related databases are alike. -/
theorem alike_start {d d' : D} {q q' : T → Prog S D R W E α × S} (hd : dbs d d')
    (hprog : ∀ t, Twin dbs writes results (q t).1 (q' t).1) (hsession : ∀ t, (q t).2 = (q' t).2) :
    Alike dbs writes results (Sys.start (R := R) d q) (Sys.start d' q') where
  db := hd
  owner := rfl
  proc t := ⟨hprog t, .nil, hsession t⟩

end

/-! ## Tables -/

namespace Table

variable {γ κ : Type} [Keyed γ κ]

/-- Tables whose rows are related one by one. -/
def Like (rows : γ → γ → Prop) (t t' : Table γ) : Prop := List.Forall₂ rows t.rows t'.rows

section
variable {rows : γ → γ → Prop} {t t' : Table γ} {r r' : γ}

variable [DecidableEq κ]

/-- Alike tables answer a lookup with related rows. -/
theorem Like.get (hkey : ∀ a b, rows a b → Keyed.key a = Keyed.key b) (h : Like rows t t') (k : κ) :
    Option.Rel rows (t.get k) (t'.get k) := by
  unfold Like at h
  unfold Table.get
  generalize t.rows = l at h ⊢
  generalize t'.rows = l' at h ⊢
  induction h with
  | nil => exact .none
  | cons hab _ ih =>
      rw [List.find?_cons, List.find?_cons, hkey _ _ hab]
      split
      · exact .some hab
      · exact ih

/-- Alike tables stay alike under related updates. -/
theorem Like.set (hkey : ∀ a b, rows a b → Keyed.key a = Keyed.key b) (h : Like rows t t')
    (hr : rows r r') : Like rows (t.set r) (t'.set r') := by
  unfold Like at h ⊢
  unfold Table.set
  dsimp only
  generalize t.rows = l at h ⊢
  generalize t'.rows = l' at h ⊢
  induction h with
  | nil => exact .nil
  | cons hab _ ih =>
      rw [List.map_cons, List.map_cons, hkey _ _ hab, hkey _ _ hr]
      refine .cons ?_ (hkey _ _ hr ▸ ih)
      split
      · exact hr
      · exact hab

/-- Alike tables lack the same keys. -/
theorem Like.get_eq_none (hkey : ∀ a b, rows a b → Keyed.key a = Keyed.key b) (h : Like rows t t')
    (k : κ) : t.get k = none ↔ t'.get k = none := by
  have hget := h.get hkey k
  generalize t.get k = x at hget ⊢
  generalize t'.get k = y at hget ⊢
  cases hget with
  | none => exact Iff.rfl
  | some => simp

/-- Alike tables accept or refuse related new rows together. -/
theorem Like.insert? (hkey : ∀ a b, rows a b → Keyed.key a = Keyed.key b) (h : Like rows t t')
    (hr : rows r r') : Option.Rel (Like rows) (t.insert? r) (t'.insert? r') := by
  have hfree : t.get (Keyed.key r) = none ↔ t'.get (Keyed.key r') = none := by
    rw [← hkey _ _ hr]
    exact h.get_eq_none hkey _
  unfold Table.insert?
  by_cases hnone : t.get (Keyed.key r) = none
  · rw [dif_pos hnone, dif_pos (hfree.mp hnone)]
    exact .some (List.rel_append h (.cons hr .nil))
  · rw [dif_neg hnone, dif_neg (hfree.not.mp hnone)]
    exact .none

end

end Table

end RowStore
