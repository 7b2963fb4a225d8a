import FairDrop.RowStore.Earned
import FairDrop.RowStore.Reasons

/-!
# What a program answers alone

The judgements of `Earned` and `Reasons` for a program that has the database to
itself, and one more: a program that `Spares` an error raises it only if a
statement has failed with it, so without failing statements it does not.
-/

namespace RowStore

variable {S D R V W E α β : Type}

section
variable {st : Store D R V W E} {P : D → Prop} {rely : D → D → Prop}
  {Q : Except E α → Known S D R V W → D → Prop} {p : Known S D R V W} {last d : D}

/-- **A program ends as explained**, if it has the database to itself and what it
commits meets `P`. -/
theorem exec_explains {x : Prog S D R W E α} {fs : List Bool} (hrefl : ∀ d, rely d d)
    (hx : explains st P rely x p last Q) (hd : p.Sees st P rely last d)
    (hcommits : ∀ c ∈ (exec st x fs d p.pending p.session).commits, P c.after) :
    ∃ p' last', Q (exec st x fs d p.pending p.session).value p' last' := by
  have hown : ∀ {q : Known S D R V W}, q.Agrees st d → q.Sees st P rely d d :=
    fun hagrees => ⟨hagrees, hd.here, hrefl d⟩
  induction x generalizing fs d p last with
  | pure a | fail e => exact ⟨p, last, hx⟩
  | lock find k ih =>
      rw [exec] at hcommits ⊢
      by_cases hf : fs.headD false = true
      · rw [if_pos hf] at hcommits ⊢
        exact ih _ hx.2 ⟨hd.agrees.abort, hd.here, hd.after⟩ hcommits hown
      · rw [if_neg hf] at hcommits ⊢
        have hgo := hx.1 d hd
        split at hgo
        · exact ih _ hgo (hown hd.agrees) hcommits hown
        · next r _ =>
            exact ih (p := p.hold r (st.view d r)) _ hgo (hown (hd.agrees.hold r)) hcommits hown
  | read k ih =>
      rw [exec] at hcommits ⊢
      by_cases hf : fs.headD false = true
      · rw [if_pos hf] at hcommits ⊢
        exact ih _ hx.2 ⟨hd.agrees.abort, hd.here, hd.after⟩ hcommits hown
      · rw [if_neg hf] at hcommits ⊢
        exact ih _ (hx.1 d hd) (hown hd.agrees) hcommits hown
  | write w k ih => exact ih hx ⟨hd.agrees.push w, hd.here, hd.after⟩ hcommits hown
  | commit k ih =>
      rw [exec] at hcommits ⊢
      by_cases hf : fs.headD false = true
      · rw [if_pos hf] at hcommits ⊢
        exact ih _ hx.2 ⟨hd.agrees.abort, hd.here, hd.after⟩ hcommits hown
      · rw [if_neg hf] at hcommits ⊢
        have hgo := hx.1 d hd
        cases ha : st.applyAll p.pending d with
        | ok d' =>
            rw [ha] at hgo hcommits
            have hhere : P d' := hcommits ⟨d, p.pending, d'⟩ List.mem_cons_self
            exact ih (.ok ()) hgo ⟨Known.agrees_committed p d', hhere, hrefl d'⟩
              (fun c hc => hcommits c (List.mem_cons_of_mem _ hc))
              fun hagrees => ⟨hagrees, hhere, hrefl d'⟩
        | error e =>
            rw [ha] at hgo hcommits
            exact ih (.error e) hgo (hown hd.agrees.abort) hcommits hown
  | rollback k ih => exact ih hx ⟨hd.agrees.abort, hd.here, hd.after⟩ hcommits hown
  | session k ih => exact ih _ hx hd hcommits hown
  | setSession s k ih => exact ih hx ⟨hd.agrees, hd.here, hd.after⟩ hcommits hown

/-- A success rests on a commit. -/
theorem exec_earned {x : Prog S D R W E α} {fs : List Bool} {ws : List W} {s : S} (hx : x.Earned)
    {a : α} (hok : (exec st x fs d ws s).value = .ok a) : (exec st x fs d ws s).commits ≠ [] := by
  induction x generalizing fs d ws s with
  | pure a => exact hx.elim
  | fail e => contradiction
  | lock find k ih | read k ih =>
      rw [exec] at hok ⊢
      by_cases hf : fs.headD false = true
      · rw [if_pos hf] at hok ⊢
        exact ih _ (hx _) hok
      · rw [if_neg hf] at hok ⊢
        exact ih _ (hx _) hok
  | commit k ih =>
      rw [exec] at hok ⊢
      by_cases hf : fs.headD false = true
      · rw [if_pos hf] at hok ⊢
        exact ih _ (hx _) hok
      · rw [if_neg hf] at hok ⊢
        cases ha : st.applyAll ws d with
        | ok d' => exact List.cons_ne_nil _ _
        | error e =>
            rw [ha] at hok
            exact ih _ (hx e) hok
  | session k ih => exact ih s (hx s) hok
  | write w k ih | rollback k ih | setSession σ k ih => exact ih hx hok

end

/-! ## Errors that only statements raise -/

/-- The program raises `e` only after a statement that has failed with it. -/
def Prog.Spares (e : E) : Prog S D R W E α → Prop
  | .pure _ => True
  | .fail e' => e' ≠ e
  | .lock _ k => ∀ d, (k (.ok d)).Spares e
  | .read k => ∀ d, (k (.ok d)).Spares e
  | .write _ k => k.Spares e
  | .commit k => (k (.ok ())).Spares e ∧ ∀ e', e' ≠ e → (k (.error e')).Spares e
  | .rollback k => k.Spares e
  | .session k => ∀ s, (k s).Spares e
  | .setSession _ k => k.Spares e

section
variable {x : Prog S D R W E α} {f : α → Prog S D R W E β} {e : E}

theorem Prog.Spares.bind (hx : x.Spares e) (hf : ∀ a, (f a).Spares e) : (x >>= f).Spares e := by
  change (x.bind f).Spares e
  induction x with
  | pure a => exact hf a
  | fail e' => exact hx
  | lock find k ih | read k ih => exact fun d => ih _ (hx d)
  | commit k ih => exact ⟨ih _ hx.1, fun e' he => ih _ (hx.2 e' he)⟩
  | session k ih => exact fun s => ih s (hx s)
  | write w k ih | rollback k ih | setSession σ k ih => exact ih hx

theorem Prog.Spares.map (hx : x.Spares e) (g : α → β) : (g <$> x).Spares e :=
  hx.bind fun _ => trivial

theorem Prog.Spares.tryCatch {h : E → Prog S D R W E α} (hx : x.Spares e)
    (hh : ∀ e', e' ≠ e → (h e').Spares e) : (MonadExcept.tryCatch x h).Spares e := by
  change (x.catchFail h).Spares e
  induction x with
  | pure a => trivial
  | fail e' => exact hh e' hx
  | lock find k ih | read k ih => exact fun d => ih _ (hx d)
  | commit k ih => exact ⟨ih _ hx.1, fun e' he => ih _ (hx.2 e' he)⟩
  | session k ih => exact fun s => ih s (hx s)
  | write w k ih | rollback k ih | setSession σ k ih => exact ih hx

theorem Prog.Spares.inSession (hx : x.Spares e) : (Prog.inSession x).Spares e := by
  have hend : ∀ a : α, (Prog.rollbackWork >>= fun _ => pure a : Prog S D R W E α).Spares e :=
    fun _ => trivial
  exact (hx.bind hend).tryCatch fun _ he => he

theorem spares_ofExcept {r : Except E α} (h : r ≠ .error e) :
    (Prog.ofExcept r : Prog S D R W E α).Spares e := by
  cases r with
  | ok a => trivial
  | error e' => exact fun he => h (congrArg _ he)

theorem spares_select : (Prog.select : Prog S D R W E D).Spares e := fun _ => trivial

theorem spares_selectForUpdate (find : D → Option R) :
    (Prog.selectForUpdate find : Prog S D R W E D).Spares e := fun _ => trivial

theorem spares_save (w : W) : (Prog.save w : Prog S D R W E Unit).Spares e := trivial

theorem spares_commitWork : (Prog.commitWork : Prog S D R W E Unit).Spares e :=
  ⟨trivial, fun _ he => he⟩

end

/-- **An error that is spared does not come up** where no statement fails. -/
theorem exec_spares {st : Store D R V W E} {x : Prog S D R W E α} {e : E} {d : D} {ws : List W} {s : S}
    (hx : x.Spares e) (happly : ∀ ws d, st.applyAll ws d ≠ .error e) :
    (exec st x [] d ws s).value ≠ .error e := by
  induction x generalizing d ws s with
  | pure a => exact fun h => by contradiction
  | fail e' => exact fun h => hx (Except.error.inj h)
  | lock find k ih | read k ih => exact ih _ (hx d)
  | commit k ih =>
      cases ha : st.applyAll ws d with
      | ok d' =>
          rw [(exec_commit_ok rfl ha).1]
          exact ih _ hx.1
      | error e' =>
          rw [exec_commit_error rfl ha]
          refine ih _ (hx.2 e' ?_)
          rintro rfl
          exact happly ws d ha
  | session k ih => exact ih s (hx s)
  | write w k ih | rollback k ih | setSession σ k ih => exact ih hx

end RowStore
