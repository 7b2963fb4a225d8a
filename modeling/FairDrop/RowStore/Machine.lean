import Mathlib.Logic.Relation

/-!
# FairDrop.RowStore.Machine

Machines that make one move at a time, and the states that they reach by moves
that meet a condition.

* `Machine.exec` — make the moves of a list, as long as they meet a check;
* `Machine.Reaches.invariant` — what the start has and every move keeps;
* `Machine.Reaches.since` — what every move keeps, between two states of a run.
-/

namespace RowStore

/-- What a move makes of a state; some moves are not possible. -/
abbrev Machine (σ μ : Type) : Type := σ → μ → Option σ

namespace Machine

variable {σ μ : Type} {f : Machine σ μ} {ok : σ → μ → Prop} {s₀ s s' : σ}

/-- One move that meets `ok`. -/
def Moves (f : Machine σ μ) (ok : σ → μ → Prop) (s s' : σ) : Prop :=
  ∃ m, ok s m ∧ f s m = some s'

/-- The machine gets from `s₀` to `s` by moves that meet `ok`. -/
def Reaches (f : Machine σ μ) (ok : σ → μ → Prop) : σ → σ → Prop :=
  Relation.ReflTransGen (f.Moves ok)

/-- Make moves as long as they meet `check`. -/
def exec (f : Machine σ μ) (check : σ → μ → Bool) (s : σ) : List μ → Option σ
  | [] => some s
  | m :: ms => if check s m then (f s m).bind fun s' => f.exec check s' ms else none

namespace Reaches

theorem refl : f.Reaches ok s s := Relation.ReflTransGen.refl

theorem trans {s₁ : σ} (h : f.Reaches ok s₀ s₁) (h' : f.Reaches ok s₁ s) : f.Reaches ok s₀ s :=
  Relation.ReflTransGen.trans h h'

theorem single {m : μ} (hok : ok s m) (h : f s m = some s') : f.Reaches ok s s' :=
  Relation.ReflTransGen.single ⟨m, hok, h⟩

/-- Moves that go through reach a state. -/
theorem of_exec {check : σ → μ → Bool} (hcheck : ∀ s m, check s m → ok s m) {ms : List μ}
    (h : f.exec check s ms = some s') : f.Reaches ok s s' := by
  induction ms generalizing s with
  | nil =>
      rw [exec, Option.some.injEq] at h
      rw [h]
      exact refl
  | cons m ms ih =>
      rw [exec] at h
      split at h
      · next hok =>
          obtain ⟨s₁, hs, hrest⟩ := Option.bind_eq_some_iff.mp h
          exact trans (single (hcheck s m hok) hs) (ih hrest)
      · contradiction

/-- Some state is reached that moves were seen to end in. -/
theorem of_exec_any {check : σ → μ → Bool} (hcheck : ∀ s m, check s m → ok s m) {ms : List μ}
    {p : σ → Bool} (h : (f.exec check s ms).any p) : ∃ s', f.Reaches ok s s' ∧ p s' := by
  obtain ⟨s', hs, hp⟩ := (Option.any_eq_true _ _).mp h
  exact ⟨s', of_exec hcheck hs, hp⟩

/-- A machine that can make the same moves reaches the same states. -/
theorem mono {g : Machine σ μ} {ok' : σ → μ → Prop} (h : f.Reaches ok s₀ s)
    (hmove : ∀ s m s', ok s m → f s m = some s' → ok' s m ∧ g s m = some s') :
    g.Reaches ok' s₀ s := by
  induction h with
  | refl => exact refl
  | tail _ hlast ih =>
      obtain ⟨m, hok, hs⟩ := hlast
      obtain ⟨hok', hs'⟩ := hmove _ m _ hok hs
      exact ih.trans (single hok' hs')

/-- What holds at first and is kept by every move holds in every state. -/
theorem invariant (inv : σ → Prop) (h : f.Reaches ok s₀ s) (hstart : inv s₀)
    (hstep : ∀ s m s', inv s → ok s m → f s m = some s' → inv s') : inv s := by
  induction h with
  | refl => exact hstart
  | tail _ hmove ih =>
      obtain ⟨m, hok, hs⟩ := hmove
      exact hstep _ m _ ih hok hs

/-- A relation that every move is in holds between the ends. -/
theorem since {inv : σ → Prop} {r : σ → σ → Prop} (hrefl : ∀ s, r s s)
    (htrans : ∀ a b c, r a b → r b c → r a c) (h : f.Reaches ok s₀ s) (hstart : inv s₀)
    (hstep : ∀ s m s', inv s → ok s m → f s m = some s' → inv s' ∧ r s s') : r s₀ s := by
  have hboth : inv s ∧ r s₀ s := by
    induction h with
    | refl => exact ⟨hstart, hrefl s₀⟩
    | tail _ hmove ih =>
        obtain ⟨m, hok, hs⟩ := hmove
        obtain ⟨hinv, hr⟩ := hstep _ m _ ih.1 hok hs
        exact ⟨hinv, htrans _ _ _ ih.2 hr⟩
  exact hboth.2

end Reaches

end Machine

end RowStore
