import FairDrop.RowStore.Interleave

/-!
# Success is earned

A program whose every success comes after a commit.  That is a property of the
program alone, whatever the database answers (`Prog.Earned`); in a run it gives
every success a commit that it rests on (`Run.commit_of_ok`).
-/

namespace RowStore

variable {S D R V W E α β T : Type}

/-- The program does not succeed before it has committed. -/
def Prog.Earned : Prog S D R W E α → Prop
  | .pure _ => False
  | .fail _ => True
  | .lock _ k => ∀ a, (k a).Earned
  | .read k => ∀ a, (k a).Earned
  | .write _ k => k.Earned
  | .commit k => ∀ e, (k (.error e)).Earned
  | .rollback k => k.Earned
  | .session k => ∀ s, (k s).Earned
  | .setSession _ k => k.Earned

section
variable {x : Prog S D R W E α} {f : α → Prog S D R W E β}

/-- It is enough that the rest of a sequence commits … -/
theorem earned_bind (hf : ∀ a, (f a).Earned) : (x >>= f).Earned := by
  change (x.bind f).Earned
  induction x with
  | pure a => exact hf a
  | fail e => trivial
  | lock find k ih | read k ih => exact fun a => ih a
  | commit k ih => exact fun e => ih _
  | session k ih => exact fun s => ih s
  | write w k ih | rollback k ih | setSession σ k ih => exact ih

/-- … or that the first part does. -/
theorem Prog.Earned.bind (hx : x.Earned) (f : α → Prog S D R W E β) : (x >>= f).Earned := by
  change (x.bind f).Earned
  induction x with
  | pure a => exact hx.elim
  | fail e => trivial
  | lock find k ih | read k ih => exact fun a => ih a (hx a)
  | commit k ih => exact fun e => ih _ (hx e)
  | session k ih => exact fun s => ih s (hx s)
  | write w k ih | rollback k ih | setSession σ k ih => exact ih hx

theorem Prog.Earned.map (hx : x.Earned) (g : α → β) : (g <$> x).Earned := hx.bind _

theorem earned_tryCatch {h : E → Prog S D R W E α} (hx : x.Earned) (hh : ∀ e, (h e).Earned) :
    (tryCatch x h).Earned := by
  change (x.catchFail h).Earned
  induction x with
  | pure a => exact hx.elim
  | fail e => exact hh e
  | lock find k ih | read k ih => exact fun a => ih a (hx a)
  | commit k ih => exact fun e => ih _ (hx e)
  | session k ih => exact fun s => ih s (hx s)
  | write w k ih | rollback k ih | setSession σ k ih => exact ih hx

theorem Prog.Earned.inSession (hx : x.Earned) : (Prog.inSession x).Earned :=
  earned_tryCatch (hx.bind _) fun _ => trivial

theorem earned_commitWork : (Prog.commitWork : Prog S D R W E Unit).Earned := fun _ => trivial

theorem earned_throw (e : E) : (throw e : Prog S D R W E α).Earned := trivial

end

/-! ## Runs -/

section
variable [DecidableEq T] [DecidableEq R] {st : Store D R V W E} {s s' : Sys S D R W E α T} {t u : T}

/-- A step that commits nothing leaves the program with its success to earn. -/
theorem earned_step {fault : Bool} {c : Option (List W)} (h : (s.proc t).prog.Earned)
    (hs : s.step st t fault = some (c, s')) : (s'.proc t).prog.Earned ∨ c.isSome := by
  cases Sys.steps hs with
  | commit hp => exact .inr rfl
  | lock hp | grant hp | read hp | session hp =>
      rw [hp] at h
      rw [Sys.proc_resume]
      exact .inl (h _)
  | lockFails hp | readFails hp | commitRefused hp | commitFails hp =>
      rw [hp] at h
      rw [Sys.proc_abort]
      exact .inl (h _)
  | write hp | setSession hp =>
      rw [hp] at h
      rw [Sys.proc_resume]
      exact .inl h
  | rollback hp =>
      rw [hp] at h
      rw [Sys.proc_abort]
      exact .inl h

/-- **A success rests on a commit.** -/
theorem Run.commit_of_ok {ok : Sys S D R W E α T → T → Prop} {evs : List (Event D W T)} {d : D}
    {q : T → Prog S D R W E α × S} (hstart : (q t).1.Earned) (h : Run st ok (.start d q) evs s)
    {a : α} (hended : s.ended t = some (.ok a)) : ∃ ev ∈ evs, ev.txn = t ∧ ev.commit.isSome := by
  have hearned : (s.proc t).prog.Earned ∨ ∃ ev ∈ evs, ev.txn = t ∧ ev.commit.isSome := by
    clear hended
    induction h with
    | nil => exact .inl hstart
    | @snoc evs s u fault c s' _ _ hs ih =>
        rcases ih with hearned | ⟨ev, hev, hcommit⟩
        · by_cases htu : t = u
          · subst htu
            rcases earned_step hearned hs with hnext | hc
            · exact .inl hnext
            · exact .inr ⟨⟨t, c, s.db, s'.db⟩, by simp, rfl, hc⟩
          · rw [(step_other htu hs).1]
            exact .inl hearned
        · exact .inr ⟨ev, by simp [hev], hcommit⟩
  rcases hearned with hearned | hcommit
  · rw [Sys.prog_of_ended hended] at hearned
    exact hearned.elim
  · exact hcommit

end

end RowStore
