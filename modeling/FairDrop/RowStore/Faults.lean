import FairDrop.RowStore.Program

/-!
# Faults of a connection

A statement can fail before it has any effect, or after it: a commit whose
acknowledgement is lost is durable, and the program learns of a failure.
-/

namespace RowStore

variable {S D R V W E α : Type}

/-- What becomes of a statement. -/
inductive Fault where
  | none
  /-- It has no effect and fails. -/
  | refused
  /-- It has its effect and fails. -/
  | lost
  deriving DecidableEq, Repr

/-- How a program has ended, and the database it has left. -/
structure Left (D E α : Type) where
  value : Except E α
  db : D

/-- Run a program that is alone on the database, with the fault of each statement
in turn; beyond the list there is none. -/
def endure (st : Store D R V W E) :
    Prog S D R W E α → List Fault → D → List W → S → Left D E α
  | .pure a, _, d, _, _ => ⟨.ok a, d⟩
  | .fail e, _, d, _, _ => ⟨.error e, d⟩
  | .lock _ k, fs, d, ws, s | .read k, fs, d, ws, s =>
      if fs.headD .none = .none then endure st (k (.ok d)) fs.tail d ws s
      else endure st (k (.error st.outage)) fs.tail d [] s
  | .write w k, fs, d, ws, s => endure st k fs d (ws ++ [w]) s
  | .commit k, fs, d, ws, s =>
      match fs.headD .none, st.applyAll ws d with
      | .none, .ok d' => endure st (k (.ok ())) fs.tail d' [] s
      | .lost, .ok d' => endure st (k (.error st.outage)) fs.tail d' [] s
      | .none, .error e => endure st (k (.error e)) fs.tail d [] s
      | .refused, _ | .lost, .error _ => endure st (k (.error st.outage)) fs.tail d [] s
  | .rollback k, fs, d, _, s => endure st k fs d [] s
  | .session k, fs, d, ws, s => endure st (k s) fs d ws s
  | .setSession s k, fs, d, ws, _ => endure st k fs d ws s

def Fault.ofBool (failed : Bool) : Fault := if failed then .refused else .none

/-- Without a lost acknowledgement this is `exec`. -/
theorem endure_eq_exec {st : Store D R V W E} {x : Prog S D R W E α} {fs : List Bool} {d : D}
    {ws : List W} {s : S} : endure st x (fs.map Fault.ofBool) d ws s =
      ⟨(exec st x fs d ws s).value, (exec st x fs d ws s).db⟩ := by
  have hhead : ∀ fs : List Bool,
      (fs.map Fault.ofBool).headD .none = if fs.headD false then .refused else .none := by
    intro fs
    cases fs <;> rfl
  have htail : ∀ fs : List Bool, (fs.map Fault.ofBool).tail = fs.tail.map Fault.ofBool := by
    intro fs
    cases fs <;> rfl
  induction x generalizing fs d ws s with
  | pure a | fail e => rfl
  | lock find k ih | read k ih =>
      simp only [endure, exec, hhead, htail]
      by_cases hf : fs.headD false = true
      · rw [if_pos hf, if_pos hf, if_neg (by simp), ih]
      · rw [if_neg hf, if_neg hf, if_pos rfl, ih]
  | write w k ih | rollback k ih | setSession σ k ih => exact ih
  | session k ih => exact ih _
  | commit k ih =>
      simp only [endure, exec, hhead, htail]
      by_cases hf : fs.headD false = true
      · rw [if_pos hf, if_pos hf]
        exact ih _
      · rw [if_neg hf, if_neg hf]
        cases st.applyAll ws d with
        | error e => exact ih _
        | ok d' => exact ih _

end RowStore
