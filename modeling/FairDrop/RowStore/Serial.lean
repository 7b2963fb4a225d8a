import FairDrop.RowStore.Program
import Mathlib.Data.List.Induction

/-!
# Serial runs

Calls that are made one after the other: each runs alone on the database that
the calls before it have left, and any of its statements may fail.
-/

namespace RowStore

variable {S D R V W E α β C : Type}

/-- The clean-up at the end of a session leaves no trace in an isolated run. -/
theorem exec_inSession {st : Store D R V W E} (x : Prog S D R W E α) (fs : List Bool) (d : D)
    (ws : List W) (s : S) : exec st (Prog.inSession x) fs d ws s = exec st x fs d ws s := by
  change exec st (Prog.catchFail (Prog.bind x _) _) fs d ws s = _
  induction x generalizing fs d ws s with
  | pure a | fail e => rfl
  | lock find k ih | read k ih =>
      simp only [Prog.bind, Prog.catchFail, exec]
      split <;> exact ih _ _ _ _ _
  | write w k ih | rollback k ih | setSession σ k ih => exact ih _ _ _ _
  | session k ih => exact ih _ _ _ _ _
  | commit k ih =>
      simp only [Prog.bind, Prog.catchFail, exec, ih]

/-- What is made of the answer of a program. -/
theorem exec_bind_ofExcept {st : Store D R V W E} (f : α → Except E β) (x : Prog S D R W E α)
    (fs : List Bool) (d : D) (ws : List W) (s : S) :
    exec st (x >>= fun a => Prog.ofExcept (f a)) fs d ws s =
      ⟨(exec st x fs d ws s).value >>= f, (exec st x fs d ws s).db,
        (exec st x fs d ws s).commits⟩ := by
  change exec st (Prog.bind x fun a => Prog.ofExcept (f a)) fs d ws s = _
  induction x generalizing fs d ws s with
  | pure a =>
      simp only [Prog.bind, exec, bind, Except.bind]
      cases f a <;> rfl
  | fail e => rfl
  | lock find k ih | read k ih =>
      simp only [Prog.bind, exec]
      split <;> exact ih _ _ _ _ _
  | write w k ih | rollback k ih | setSession σ k ih => exact ih _ _ _ _
  | session k ih => exact ih _ _ _ _ _
  | commit k ih =>
      simp only [Prog.bind, exec]
      split
      · exact ih _ _ _ _ _
      · split
        · rw [ih]
        · exact ih _ _ _ _ _

theorem exec_map_db {st : Store D R V W E} (f : α → β) (x : Prog S D R W E α) (fs : List Bool)
    (d : D) (ws : List W) (s : S) :
    (exec st (f <$> x) fs d ws s).db = (exec st x fs d ws s).db :=
  congrArg Outcome.db (exec_bind_ofExcept (fun a => .ok (f a)) x fs d ws s)

/-- A program that ends in the commit of one write leaves what the write makes, or
nothing. -/
theorem exec_write_commit {st : Store D R V W E} {w : W} {k : Except E Unit → Prog S D R W E α}
    {fs : List Bool} {d : D} {s : S} (hk : ∀ x fs d, (exec st (k x) fs d [] s).db = d) :
    (exec st (.write w (.commit k)) fs d [] s).db = d ∨
      st.apply w d = .ok (exec st (.write w (.commit k)) fs d [] s).db := by
  simp only [exec, List.nil_append, Store.applyAll_singleton]
  split
  · exact .inl (hk _ _ _)
  · cases happly : st.apply w d with
    | error e => exact .inl (hk _ _ _)
    | ok d' => exact .inr (congrArg Except.ok (hk _ _ _).symm)

theorem exec_ofExcept_db {st : Store D R V W E} {x : Except E α} {fs : List Bool} {d : D}
    {ws : List W} {s : S} : (exec st (Prog.ofExcept x) fs d ws s).db = d := by
  cases x <;> rfl

/-- A call of a run: the database it was made on, its answer, and the database
that it left. -/
structure Done (D E α C : Type) where
  call : C
  before : D
  answer : Except E α
  after : D

/-- Make a call. -/
def perform (st : Store D R V W E) (program : C → Prog S D R W E α) (s : S) (d : D) (c : C)
    (faults : List Bool) : Done D E α C where
  call := c
  before := d
  answer := (exec st (program c) faults d [] s).value
  after := (exec st (program c) faults d [] s).db

/-- The calls that lead from `d₀` to `d`; each was made when it met `ok`. -/
inductive Serial (st : Store D R V W E) (program : C → Prog S D R W E α) (s : S)
    (ok : D → C → List Bool → Prop) (d₀ : D) : List (Done D E α C) → D → Prop
  | nil : Serial st program s ok d₀ [] d₀
  | snoc {calls d c faults} : Serial st program s ok d₀ calls d → ok d c faults →
      Serial st program s ok d₀ (calls ++ [perform st program s d c faults])
        (perform st program s d c faults).after

/-- What the last call that gives something has given. -/
def latest (f : Done D E α C → Option β) (calls : List (Done D E α C)) : Option β :=
  calls.foldl (fun last x => (f x).or last) none

section
variable {f : Done D E α C → Option β} {calls : List (Done D E α C)}

theorem latest_snoc {x : Done D E α C} :
    latest f (calls ++ [x]) = (f x).or (latest f calls) := by
  rw [latest, List.foldl_append]
  rfl

theorem exists_of_latest {b : β} (h : latest f calls = some b) : ∃ x ∈ calls, f x = some b := by
  induction calls using List.reverseRecOn with
  | nil => contradiction
  | append_singleton calls x ih =>
      rw [latest_snoc, Option.or_eq_some_iff] at h
      cases h with
      | inl h => exact ⟨x, by simp, h⟩
      | inr h =>
          obtain ⟨y, hy, hgives⟩ := ih h.2
          exact ⟨y, by simp [hy], hgives⟩

end

/-- Make the calls of a list, as long as they meet `check`. -/
def serially (st : Store D R V W E) (program : C → Prog S D R W E α) (s : S)
    (check : D → C → List Bool → Bool) (d : D) :
    List (C × List Bool) → Option (List (Done D E α C) × D)
  | [] => some ([], d)
  | (c, faults) :: rest =>
      let x := perform st program s d c faults
      if check d c faults then
        (serially st program s check x.after rest).map fun y => (x :: y.1, y.2)
      else none

namespace Serial

variable {st : Store D R V W E} {program : C → Prog S D R W E α} {s : S}
  {ok : D → C → List Bool → Prop} {d₀ d : D} {calls : List (Done D E α C)}

/-- What every call keeps holds throughout, and each call is made in it. -/
theorem keeps {I : D → Prop} {P : Done D E α C → Prop} (h : Serial st program s ok d₀ calls d)
    (hstart : I d₀)
    (hkeep : ∀ d c faults, I d → ok d c faults →
      I (perform st program s d c faults).after ∧ P (perform st program s d c faults)) :
    I d ∧ ∀ x ∈ calls, P x := by
  induction h with
  | nil => exact ⟨hstart, by simp⟩
  | @snoc calls d c faults _ hok ih =>
      obtain ⟨hafter, hcall⟩ := hkeep d c faults ih.1 hok
      refine ⟨hafter, fun x hx => ?_⟩
      cases List.mem_append.mp hx with
      | inl hx => exact ih.2 x hx
      | inr hx => exact List.mem_singleton.mp hx ▸ hcall

theorem append {d' : D} {calls' : List (Done D E α C)} (h : Serial st program s ok d₀ calls d)
    (h' : Serial st program s ok d calls' d') : Serial st program s ok d₀ (calls ++ calls') d' := by
  induction h' with
  | nil => simpa using h
  | snoc _ hok ih =>
      rw [← List.append_assoc]
      exact .snoc ih hok

/-- Calls that are made by `serially` are a run. -/
theorem of_serially {check : D → C → List Bool → Bool}
    (hcheck : ∀ d c faults, check d c faults → ok d c faults) {l : List (C × List Bool)}
    (h : serially st program s check d₀ l = some (calls, d)) :
    Serial st program s ok d₀ calls d := by
  induction l generalizing d₀ calls with
  | nil =>
      obtain ⟨rfl, rfl⟩ := Prod.mk.inj (Option.some.inj h)
      exact .nil
  | cons x rest ih =>
      obtain ⟨c, faults⟩ := x
      rw [serially] at h
      split at h
      · next hmeets =>
          obtain ⟨y, hy, hx⟩ := Option.map_eq_some_iff.mp h
          obtain ⟨rfl, rfl⟩ := Prod.mk.inj hx
          exact append (.snoc .nil (hcheck _ _ _ hmeets)) (ih hy)
      · contradiction

theorem of_serially_any {check : D → C → List Bool → Bool}
    (hcheck : ∀ d c faults, check d c faults → ok d c faults) {l : List (C × List Bool)}
    {p : List (Done D E α C) × D → Bool}
    (h : (serially st program s check d₀ l).any p) :
    ∃ calls d, Serial st program s ok d₀ calls d ∧ p (calls, d) := by
  obtain ⟨x, hx, hp⟩ := (Option.any_eq_true _ _).mp h
  exact ⟨x.1, x.2, of_serially hcheck hx, hp⟩

end Serial

end RowStore
