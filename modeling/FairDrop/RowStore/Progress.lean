import FairDrop.RowStore.Program

/-!
# Programs in parts

`exec` says what a program that runs alone has left at its end.  `advance` also
says what a part of it leaves to the next one: the writes that are pending, the
session, and the faults that are still to come.  A sequence is its parts one
after the other (`advance_bind`).
-/

namespace RowStore

variable {S D R V W E α β : Type}

/-- Where a program has got to. -/
structure Progress (S D W E α : Type) where
  value : Except E α
  db : D
  pending : List W
  session : S
  faults : List Bool

def advance (st : Store D R V W E) :
    Prog S D R W E α → List Bool → D → List W → S → Progress S D W E α
  | .pure a, fs, d, ws, s => ⟨.ok a, d, ws, s, fs⟩
  | .fail e, fs, d, ws, s => ⟨.error e, d, ws, s, fs⟩
  | .lock _ k, fs, d, ws, s | .read k, fs, d, ws, s =>
      if fs.headD false then advance st (k (.error st.outage)) fs.tail d [] s
      else advance st (k (.ok d)) fs.tail d ws s
  | .write w k, fs, d, ws, s => advance st k fs d (ws ++ [w]) s
  | .commit k, fs, d, ws, s =>
      if fs.headD false then advance st (k (.error st.outage)) fs.tail d [] s
      else match st.applyAll ws d with
        | .ok d' => advance st (k (.ok ())) fs.tail d' [] s
        | .error e => advance st (k (.error e)) fs.tail d [] s
  | .rollback k, fs, d, _, s => advance st k fs d [] s
  | .session k, fs, d, ws, s => advance st (k s) fs d ws s
  | .setSession s k, fs, d, ws, _ => advance st k fs d ws s

namespace Progress

/-- Go on with the next part; a failure of the first one is that of the whole. -/
def andThen (p : Progress S D W E α) (st : Store D R V W E) (f : α → Prog S D R W E β) :
    Progress S D W E β :=
  match p.value with
  | .ok a => advance st (f a) p.faults p.db p.pending p.session
  | .error e => ⟨.error e, p.db, p.pending, p.session, p.faults⟩

/-- Run a handler after a failure. -/
def orElse (p : Progress S D W E α) (st : Store D R V W E) (h : E → Prog S D R W E α) :
    Progress S D W E α :=
  match p.value with
  | .ok _ => p
  | .error e => advance st (h e) p.faults p.db p.pending p.session

end Progress

section
variable {st : Store D R V W E} {x : Prog S D R W E α} {fs : List Bool} {d : D} {ws : List W}
  {s : S}

/-- At the end `advance` is where `exec` is. -/
theorem exec_eq_advance : (exec st x fs d ws s).value = (advance st x fs d ws s).value ∧
    (exec st x fs d ws s).db = (advance st x fs d ws s).db := by
  induction x generalizing fs d ws s with
  | pure a | fail e => exact ⟨rfl, rfl⟩
  | lock find k ih | read k ih =>
      simp only [exec, advance]
      split <;> exact ih _
  | write w k ih | rollback k ih | setSession σ k ih => exact ih
  | session k ih => exact ih _
  | commit k ih =>
      simp only [exec, advance]
      split
      · exact ih _
      · cases st.applyAll ws d <;> exact ih _

theorem advance_bind (f : α → Prog S D R W E β) :
    advance st (x >>= f) fs d ws s = (advance st x fs d ws s).andThen st f := by
  change advance st (x.bind f) fs d ws s = _
  induction x generalizing fs d ws s with
  | pure a | fail e => rfl
  | lock find k ih | read k ih =>
      simp only [Prog.bind, advance]
      split <;> exact ih _
  | write w k ih | rollback k ih | setSession σ k ih => exact ih
  | session k ih => exact ih _
  | commit k ih =>
      simp only [Prog.bind, advance]
      split
      · exact ih _
      · split <;> exact ih _

/-- A sequence that succeeds is a first part that does, and a second one from there. -/
theorem exec_bind_ok {f : α → Prog S D R W E β} {b : β}
    (h : (exec st (x >>= f) fs d ws s).value = .ok b) :
    ∃ a p, advance st x fs d ws s = p ∧ p.value = .ok a ∧
      (exec st (f a) p.faults p.db p.pending p.session).value = .ok b := by
  rw [exec_eq_advance.1, advance_bind, Progress.andThen] at h
  split at h
  · next a hvalue => exact ⟨a, _, rfl, hvalue, exec_eq_advance.1.trans h⟩
  · contradiction

/-- A result that does not depend on the first part. -/
theorem exec_bind_pure {a b : α} {x : Prog S D R W E β}
    (h : (exec st (x >>= fun _ => pure a) fs d ws s).value = .ok b) : b = a := by
  obtain ⟨-, p, -, -, hvalue⟩ := exec_bind_ok h
  exact (Except.ok.inj hvalue).symm

/-- A query that goes through. -/
theorem advance_select_ok {query : D → α} {p : Progress S D W E α} {a : α}
    (h : advance st (Prog.select >>= fun d => pure (query d)) fs d ws s = p)
    (hvalue : p.value = .ok a) : a = query d := by
  change advance st (.read _) fs d ws s = p at h
  rw [advance] at h
  split at h
  · subst h
    contradiction
  · subst h
    exact (Except.ok.inj hvalue).symm

theorem advance_tryCatch (h : E → Prog S D R W E α) :
    advance st (tryCatch x h) fs d ws s = (advance st x fs d ws s).orElse st h := by
  change advance st (x.catchFail h) fs d ws s = _
  induction x generalizing fs d ws s with
  | pure a | fail e => rfl
  | lock find k ih | read k ih =>
      simp only [Prog.catchFail, advance]
      split <;> exact ih _
  | write w k ih | rollback k ih | setSession σ k ih => exact ih
  | session k ih => exact ih _
  | commit k ih =>
      simp only [Prog.catchFail, advance]
      split
      · exact ih _
      · split <;> exact ih _

end

/-! ## Attempts -/

/-- The part succeeds as `Q` says, or it fails and what is committed is still `d`. -/
def Progress.Attempt (p : Progress S D W E α) (d : D) (Q : α → D → List W → S → Prop) : Prop :=
  match p.value with
  | .ok a => Q a p.db p.pending p.session
  | .error _ => p.db = d

theorem Progress.Attempt.cases {p : Progress S D W E α} {d : D} {Q : α → D → List W → S → Prop}
    (h : p.Attempt d Q) : (∃ a, p.value = .ok a ∧ Q a p.db p.pending p.session) ∨
      ((∃ e, p.value = .error e) ∧ p.db = d) := by
  unfold Attempt at h
  split at h
  · next a hvalue => exact .inl ⟨a, hvalue, h⟩
  · next e hvalue => exact .inr ⟨⟨e, hvalue⟩, h⟩

section
variable {st : Store D R V W E} {fs : List Bool} {d d₀ : D} {ws : List W} {s : S}

theorem attempt_pure {a : α} {Q : α → D → List W → S → Prop} (h : Q a d ws s) :
    (advance st (pure a : Prog S D R W E α) fs d ws s).Attempt d₀ Q := h

theorem attempt_fail {e : E} {Q : α → D → List W → S → Prop} :
    (advance st (.fail e : Prog S D R W E α) fs d ws s).Attempt d Q := rfl

theorem attempt_bind {x : Prog S D R W E α} {f : α → Prog S D R W E β}
    {P : α → D → List W → S → Prop} {Q : β → D → List W → S → Prop}
    (hx : (advance st x fs d ws s).Attempt d₀ P)
    (hf : ∀ a fs' d' ws' s', P a d' ws' s' →
      (advance st (f a) fs' d' ws' s').Attempt d₀ Q) :
    (advance st (x >>= f) fs d ws s).Attempt d₀ Q := by
  rw [advance_bind]
  unfold Progress.Attempt at hx
  unfold Progress.andThen
  split
  · next a hvalue =>
      rw [hvalue] at hx
      exact hf a _ _ _ _ hx
  · next e hvalue =>
      rw [hvalue] at hx
      exact hx

/-- Lock a row, compute from what the database holds and go on with it. -/
theorem attempt_selectForUpdate {find : D → Option R} {f : D → α} {g : α → Prog S D R W E β}
    {Q : β → D → List W → S → Prop}
    (h : ∀ fs', (advance st (g (f d)) fs' d ws s).Attempt d Q) :
    (advance st ((Prog.selectForUpdate find >>= fun d => pure (f d)) >>= g) fs d ws s).Attempt
      d Q := by
  change (advance st (.lock find _) fs d ws s).Attempt d Q
  rw [advance]
  split
  · exact attempt_fail
  · exact h fs.tail

theorem attempt_commitWork {f : Unit → Prog S D R W E β} {Q : β → D → List W → S → Prop}
    (h : ∀ d' fs', st.applyAll ws d = .ok d' →
      (advance st (f ()) fs' d' [] s).Attempt d Q) :
    (advance st (Prog.commitWork >>= f) fs d ws s).Attempt d Q := by
  change (advance st (.commit _) fs d ws s).Attempt d Q
  rw [advance]
  split
  · exact attempt_fail
  · split
    · next d' happly => exact h d' fs.tail happly
    · exact attempt_fail

/-- A commit that is the end of a part. -/
theorem attempt_lastCommit {Q : Unit → D → List W → S → Prop}
    (h : ∀ d', st.applyAll ws d = .ok d' → Q () d' [] s) :
    (advance st (Prog.commitWork : Prog S D R W E Unit) fs d ws s).Attempt d Q := by
  change (advance st (.commit _) fs d ws s).Attempt d Q
  rw [advance]
  split
  · exact attempt_fail
  · split
    · next d' happly => exact h d' happly
    · exact attempt_fail

/-- A handler that only cleans up: the whole succeeds, either way. -/
theorem attempt_recover {x : Prog S D R W E Unit} (reset : S)
    {P : Unit → D → List W → S → Prop} (hx : (advance st x fs d ws s).Attempt d P) :
    ∃ fs' d' ws' s', advance st (tryCatch x fun _ => do
        Prog.rollbackWork
        Prog.putSession reset) fs d ws s = ⟨.ok (), d', ws', s', fs'⟩ ∧
      ((∃ a, (advance st x fs d ws s).value = .ok a ∧ P a d' ws' s') ∨
        (∃ e, (advance st x fs d ws s).value = .error e) ∧ d' = d ∧ ws' = [] ∧ s' = reset) := by
  rw [advance_tryCatch]
  generalize advance st x fs d ws s = p at hx ⊢
  obtain ⟨value, db, pending, session, faults⟩ := p
  cases value with
  | ok a => exact ⟨faults, db, pending, session, rfl, .inl ⟨a, rfl, hx⟩⟩
  | error e => exact ⟨faults, db, [], reset, rfl, .inr ⟨⟨e, rfl⟩, hx, rfl, rfl⟩⟩

end

end RowStore
