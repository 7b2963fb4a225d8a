import FairDrop.RowStore.Interleave
import Mathlib.Data.DFinsupp.WellFounded
import Mathlib.SetTheory.Ordinal.Basic

/-!
# Termination and progress

Runs of finitely many programs end.  A statement moves its program on, and a
program is a well-founded tree, so nobody runs forever (`Sys.moves_wf`); and
where no cycle of waits can form, somebody who has not ended can always move
without a failing statement (`Sys.exists_step`).  Together: from every state of
a run everybody can be brought to an end (`Run.completes`).
-/

namespace RowStore

variable {S D R V W E α T : Type}

/-! ## Nobody runs forever -/

/-- `y` is what `x` goes on with after its first statement. -/
inductive Prog.Next : (y x : Prog S D R W E α) → Prop
  | lock {find k} (a : Except E D) : Next (k a) (.lock find k)
  | read {k} (a : Except E D) : Next (k a) (.read k)
  | write {w k} : Next k (.write w k)
  | commit {k} (a : Except E Unit) : Next (k a) (.commit k)
  | rollback {k} : Next k (.rollback k)
  | session {k} (s : S) : Next (k s) (.session k)
  | setSession {s k} : Next k (.setSession s k)

theorem Prog.next_wf : WellFounded (Prog.Next (S := S) (D := D) (R := R) (W := W) (E := E) (α := α)) := by
  refine ⟨fun x => ?_⟩
  induction x with
  | pure | fail => exact ⟨_, fun y h => by cases h⟩
  | lock find k ih => exact ⟨_, fun y h => by cases h with | lock a => exact ih a⟩
  | read k ih => exact ⟨_, fun y h => by cases h with | read a => exact ih a⟩
  | write w k ih => exact ⟨_, fun y h => by cases h with | write => exact ih⟩
  | commit k ih => exact ⟨_, fun y h => by cases h with | commit a => exact ih a⟩
  | rollback k ih => exact ⟨_, fun y h => by cases h with | rollback => exact ih⟩
  | session k ih => exact ⟨_, fun y h => by cases h with | session s => exact ih s⟩
  | setSession s k ih => exact ⟨_, fun y h => by cases h with | setSession => exact ih⟩

section
variable [DecidableEq T] [DecidableEq R] {st : Store D R V W E} {s s' : Sys S D R W E α T} {t : T}

/-- A step is the next statement of its program. -/
theorem Sys.next_of_step {fault : Bool} {c : Option (List W)}
    (h : s.step st t fault = some (c, s')) : Prog.Next (s'.proc t).prog (s.proc t).prog := by
  cases Sys.steps h with
  | lock hp | grant hp =>
      rw [Sys.proc_resume, hp]
      exact .lock _
  | lockFails hp =>
      rw [Sys.proc_abort, hp]
      exact .lock _
  | read hp =>
      rw [Sys.proc_resume, hp]
      exact .read _
  | readFails hp =>
      rw [Sys.proc_abort, hp]
      exact .read _
  | commit hp =>
      rw [Sys.proc_commit, hp]
      exact .commit _
  | commitRefused hp | commitFails hp =>
      rw [Sys.proc_abort, hp]
      exact .commit _
  | rollback hp =>
      rw [Sys.proc_abort, hp]
      exact .rollback
  | write hp =>
      rw [Sys.proc_resume, hp]
      exact .write
  | session hp =>
      rw [Sys.proc_resume, hp]
      exact .session _
  | setSession hp =>
      rw [Sys.proc_resume, hp]
      exact .setSession

/-- Somebody makes a step, whether its statement fails or not. -/
def Sys.Moves (st : Store D R V W E) (s s' : Sys S D R W E α T) : Prop :=
  ∃ t fault c, s.step st t fault = some (c, s')

/-- **No run is infinite.** -/
theorem Sys.moves_wf [Finite T] (st : Store D R V W E) :
    WellFounded fun s' s : Sys S D R W E α T => s.Moves st s' := by
  have hlex : WellFounded (Pi.Lex (β := fun _ : T => Prog S D R W E α) WellOrderingRel
      fun {_} => Prog.Next) := Pi.Lex.wellFounded _ fun _ => Prog.next_wf
  refine Subrelation.wf ?_ (InvImage.wf (fun s t => (s.proc t).prog) hlex)
  rintro s' s ⟨t, fault, c, hstep⟩
  refine ⟨t, fun u hu => ?_, Sys.next_of_step hstep⟩
  have hne : u ≠ t := by
    rintro rfl
    exact irrefl_of WellOrderingRel u hu
  exact congrArg Proc.prog (step_other hne hstep).1

/-! ## Somebody can move -/

/-- Who has not ended and waits for nobody can move. -/
theorem Sys.step_of_free (st : Store D R V W E) (hended : s.ended t = none)
    (hfree : ∀ u, ¬ s.WaitsFor t u) : ∃ c s', s.step st t false = some (c, s') := by
  cases hp : (s.proc t).prog with
  | pure a | fail e => simp [Sys.ended, hp] at hended
  | lock find k =>
      cases hf : find s.db with
      | none => exact ⟨_, _, by simp only [Sys.step, hp, hf]; rfl⟩
      | some r =>
          have hwants : s.wants t = some r := by rw [Sys.wants, hp]; exact hf
          have hgrant : s.owner r = none ∨ s.owner r = some t := by
            cases howner : s.owner r with
            | none => exact .inl rfl
            | some u =>
                by_cases hu : u = t
                · exact .inr (by rw [hu])
                · exact absurd ⟨hu, r, hwants, howner⟩ (hfree u)
          exact ⟨_, _, by simp only [Sys.step, hp, hf, hgrant]; rfl⟩
  | commit k =>
      cases happly : st.applyAll (s.proc t).pending s.db with
      | ok d => exact ⟨_, _, by simp only [Sys.step, hp, happly]; rfl⟩
      | error e => exact ⟨_, _, by simp only [Sys.step, hp, happly]; rfl⟩
  | read k | write w k | rollback k | session k | setSession σ k =>
      exact ⟨_, _, by simp only [Sys.step, hp]; rfl⟩

/-- **Progress**: where nobody waits in a circle, and everybody who is waited for
is at work, somebody can move unless all have ended. -/
theorem Sys.exists_step [Finite T] (st : Store D R V W E)
    (hacyclic : ∀ t, ¬ Relation.TransGen s.WaitsFor t t)
    (hworks : ∀ t u, s.WaitsFor t u → s.ended u = none) (hended : s.ended t = none) :
    ∃ u c s', s.step st u false = some (c, s') := by
  let r : T → T → Prop := fun u t => Relation.TransGen s.WaitsFor t u
  have htrans : IsTrans T r := ⟨fun _ _ _ h h' => h'.trans h⟩
  have hirrefl : Std.Irrefl r := ⟨hacyclic⟩
  have hwf : WellFounded r := Finite.wellFounded_of_trans_of_irrefl r
  -- One who waits for nobody else that is at work.
  obtain ⟨u, hu, hmin⟩ := hwf.has_min {u | s.ended u = none} ⟨t, hended⟩
  have hfree : ∀ v, ¬ s.WaitsFor u v := fun v hv => hmin v (hworks u v hv) (.single hv)
  obtain ⟨c, s', hstep⟩ := Sys.step_of_free st hu hfree
  exact ⟨u, c, s', hstep⟩

/-! ## Everybody ends -/

/-- Runs under a condition are runs under a weaker one. -/
theorem Run.mono {ok ok' : Sys S D R W E α T → T → Prop} {s₀ : Sys S D R W E α T}
    {evs : List (Event D W T)} (h : Run st ok s₀ evs s) (hok : ∀ s t, ok s t → ok' s t) :
    Run st ok' s₀ evs s := by
  induction h with
  | nil => exact .nil
  | snoc _ hgo hstep ih => exact .snoc ih (hok _ _ hgo) hstep

/-- There is no endless sequence of steps. -/
theorem Sys.moves_stop [Finite T] (st : Store D R V W E) (f : ℕ → Sys S D R W E α T) :
    ∃ n, ¬ (f n).Moves st (f (n + 1)) := by
  by_contra hall
  have hchain : ∀ n, (f n).Moves st (f (n + 1)) := fun n => not_not.mp fun h => hall ⟨n, h⟩
  obtain ⟨_, ⟨n, rfl⟩, hmin⟩ := (Sys.moves_wf st).has_min (Set.range f) ⟨f 0, 0, rfl⟩
  exact hmin (f (n + 1)) ⟨n + 1, rfl⟩ (hchain n)

/-- **Everybody can end** from every state of a run, if as long as somebody has
not ended, somebody can move. -/
theorem Run.completes [Finite T] {ok : Sys S D R W E α T → T → Prop} {s₀ : Sys S D R W E α T}
    {evs : List (Event D W T)}
    (hgo : ∀ evs s t, Run st ok s₀ evs s → s.ended t = none →
      ∃ u c s', ok s u ∧ s.step st u false = some (c, s'))
    (hrun : Run st ok s₀ evs s) : ∃ evs' s', Run st ok s evs' s' ∧ ∀ t, (s'.ended t).isSome := by
  have hwf : WellFounded fun s' s : Sys S D R W E α T => s.Moves st s' := Sys.moves_wf st
  induction s using hwf.induction generalizing evs with
  | h s ih =>
      by_cases hall : ∀ t, (s.ended t).isSome
      · exact ⟨[], s, .nil, hall⟩
      · obtain ⟨t, ht⟩ := not_forall.mp hall
        obtain ⟨u, c, s', hok, hstep⟩ := hgo evs s t hrun (Option.not_isSome_iff_eq_none.mp ht)
        obtain ⟨evs', s'', hrest, hdone⟩ := ih s' ⟨u, false, c, hstep⟩ (.snoc hrun hok hstep)
        exact ⟨[] ++ [⟨u, c, s.db, s'.db⟩] ++ evs', s'', .append (.snoc .nil hok hstep) hrest, hdone⟩

end

end RowStore
