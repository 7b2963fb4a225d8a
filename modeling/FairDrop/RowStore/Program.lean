/-!
# Transaction programs

A client of a row store is a program over its statements: lock a row and read,
read without a lock, buffer a write, commit, roll back.  A program is data, so
one definition has several meanings: it can be run alone (`exec`), stepped
against other programs (`RowStore.Interleave`) and reasoned about
(`RowStore.Guarantee`).

The parameters are the client's session state `S`, the database `D`, the
lockable rows `R`, the writes `W` and the errors `E`:

* a statement that reads the database gets either its committed state or an
  error, so a failing statement is an ordinary branch of the program;
* writes are buffered and take effect together when the program commits.
-/

namespace RowStore

/-- A program of a database client. -/
inductive Prog (S D R W E : Type) (α : Type) : Type where
  | pure (a : α)
  | fail (e : E)
  /-- `SELECT … FOR UPDATE`: `find` picks the row to lock. -/
  | lock (find : D → Option R) (k : Except E D → Prog S D R W E α)
  /-- A plain `SELECT`. -/
  | read (k : Except E D → Prog S D R W E α)
  /-- A pending `INSERT` or `UPDATE`. -/
  | write (w : W) (k : Prog S D R W E α)
  | commit (k : Except E Unit → Prog S D R W E α)
  | rollback (k : Prog S D R W E α)
  | session (k : S → Prog S D R W E α)
  | setSession (s : S) (k : Prog S D R W E α)

namespace Prog

variable {S D R W E α β : Type}

/-! ## Sequencing and handlers -/

def bind : Prog S D R W E α → (α → Prog S D R W E β) → Prog S D R W E β
  | .pure a, f => f a
  | .fail e, _ => .fail e
  | .lock find k, f => .lock find fun a => (k a).bind f
  | .read k, f => .read fun a => (k a).bind f
  | .write w k, f => .write w (k.bind f)
  | .commit k, f => .commit fun a => (k a).bind f
  | .rollback k, f => .rollback (k.bind f)
  | .session k, f => .session fun s => (k s).bind f
  | .setSession s k, f => .setSession s (k.bind f)

/-- Run `h` in place of the first failure.  The handler decides whether to
roll back: locks and pending writes are still there when it starts. -/
def catchFail : Prog S D R W E α → (E → Prog S D R W E α) → Prog S D R W E α
  | .pure a, _ => .pure a
  | .fail e, h => h e
  | .lock find k, h => .lock find fun a => (k a).catchFail h
  | .read k, h => .read fun a => (k a).catchFail h
  | .write w k, h => .write w (k.catchFail h)
  | .commit k, h => .commit fun a => (k a).catchFail h
  | .rollback k, h => .rollback (k.catchFail h)
  | .session k, h => .session fun s => (k s).catchFail h
  | .setSession s k, h => .setSession s (k.catchFail h)

instance : Monad (Prog S D R W E) where
  pure := Prog.pure
  bind := Prog.bind

instance : MonadExceptOf E (Prog S D R W E) where
  throw := Prog.fail
  tryCatch := Prog.catchFail

/-! ## Statements -/

/-- Lift the answer of a pure check. -/
def ofExcept : Except E α → Prog S D R W E α
  | .ok a => .pure a
  | .error e => .fail e

def selectForUpdate (find : D → Option R) : Prog S D R W E D := .lock find ofExcept

def select : Prog S D R W E D := .read ofExcept

def save (w : W) : Prog S D R W E Unit := .write w (.pure ())

def saveAll : List W → Prog S D R W E Unit
  | [] => .pure ()
  | w :: ws => .write w (saveAll ws)

def commitWork : Prog S D R W E Unit := .commit ofExcept

def rollbackWork : Prog S D R W E Unit := .rollback (.pure ())

def getSession : Prog S D R W E S := .session .pure

def putSession (s : S) : Prog S D R W E Unit := .setSession s (.pure ())

/-- Run `x` in a session of its own: whatever is open at the end is rolled back. -/
def inSession (x : Prog S D R W E α) : Prog S D R W E α :=
  tryCatch
    (do let a ← x
        rollbackWork
        return a)
    fun e => do
      rollbackWork
      throw e

end Prog

/-! ## The store -/

/-- What a program runs against: the content of a lockable row, which contents
stand for an existing row, how a write changes the database, and the error a
failing statement raises. -/
structure Store (D R V W E : Type) where
  view : D → R → V
  present : V → Prop
  apply : W → D → Except E D
  outage : E

variable {S D R V W E α : Type}

/-- Apply a unit of work; the first refused write refuses all of it. -/
def Store.applyAll (st : Store D R V W E) : List W → D → Except E D
  | [], d => .ok d
  | w :: ws, d => match st.apply w d with
    | .ok d' => st.applyAll ws d'
    | .error e => .error e

theorem Store.applyAll_nil {st : Store D R V W E} {d d' : D} :
    st.applyAll [] d = .ok d' ↔ d' = d := by
  simp [Store.applyAll, eq_comm]

theorem Store.applyAll_cons {st : Store D R V W E} {w : W} {ws : List W} {d d' : D} :
    st.applyAll (w :: ws) d = .ok d' ↔
      ∃ d₁, st.apply w d = .ok d₁ ∧ st.applyAll ws d₁ = .ok d' := by
  rw [Store.applyAll]
  cases st.apply w d <;> simp

theorem Store.applyAll_singleton {st : Store D R V W E} {w : W} {d : D} :
    st.applyAll [w] d = st.apply w d := by
  rw [Store.applyAll]
  cases st.apply w d <;> rfl

theorem Store.applyAll_append {st : Store D R V W E} {ws ws' : List W} {d d' : D} :
    st.applyAll (ws ++ ws') d = .ok d' ↔
      ∃ d₁, st.applyAll ws d = .ok d₁ ∧ st.applyAll ws' d₁ = .ok d' := by
  induction ws generalizing d with
  | nil => simp [Store.applyAll_nil]
  | cons w ws ih =>
      simp only [List.cons_append, Store.applyAll_cons, ih]
      constructor
      · rintro ⟨d₁, h₁, d₂, h₂, h₃⟩
        exact ⟨d₂, ⟨d₁, h₁, h₂⟩, h₃⟩
      · rintro ⟨d₂, ⟨d₁, h₁, h₂⟩, h₃⟩
        exact ⟨d₁, h₁, d₂, h₂, h₃⟩

/-- One committed unit of work. -/
structure Commit (D W : Type) where
  before : D
  writes : List W
  after : D

/-- Commits that follow each other from `d` to `d'`. -/
def Linked : D → List (Commit D W) → D → Prop
  | d, [], d' => d = d'
  | d, c :: cs, d' => c.before = d ∧ Linked c.after cs d'

/-! ## Isolated execution -/

/-- What a program left behind when it ran alone. -/
structure Outcome (D W E α : Type) where
  value : Except E α
  db : D
  commits : List (Commit D W)

/-- Run a program with nobody else on the database.  `faults` says of each
statement in turn whether the database fails it; beyond the list every
statement is answered.  A statement that fails aborts the transaction, so the
writes pending at that point are dropped. -/
def exec (st : Store D R V W E) :
    Prog S D R W E α → List Bool → D → List W → S → Outcome D W E α
  | .pure a, _, d, _, _ => ⟨.ok a, d, []⟩
  | .fail e, _, d, _, _ => ⟨.error e, d, []⟩
  | .lock _ k, fs, d, ws, s =>
      if fs.headD false then exec st (k (.error st.outage)) fs.tail d [] s
      else exec st (k (.ok d)) fs.tail d ws s
  | .read k, fs, d, ws, s =>
      if fs.headD false then exec st (k (.error st.outage)) fs.tail d [] s
      else exec st (k (.ok d)) fs.tail d ws s
  | .write w k, fs, d, ws, s => exec st k fs d (ws ++ [w]) s
  | .commit k, fs, d, ws, s =>
      if fs.headD false then exec st (k (.error st.outage)) fs.tail d [] s
      else match st.applyAll ws d with
        | .ok d' =>
            let o := exec st (k (.ok ())) fs.tail d' [] s
            { o with commits := ⟨d, ws, d'⟩ :: o.commits }
        | .error e => exec st (k (.error e)) fs.tail d [] s
  | .rollback k, fs, d, _, s => exec st k fs d [] s
  | .session k, fs, d, ws, s => exec st (k s) fs d ws s
  | .setSession s k, fs, d, ws, _ => exec st k fs d ws s

theorem exec_commit_ok {st : Store D R V W E} {k : Except E Unit → Prog S D R W E α}
    {fs : List Bool} {d d' : D} {ws : List W} {s : S} (hf : fs.headD false = false)
    (h : st.applyAll ws d = .ok d') :
    (exec st (.commit k) fs d ws s).value = (exec st (k (.ok ())) fs.tail d' [] s).value ∧
      (exec st (.commit k) fs d ws s).db = (exec st (k (.ok ())) fs.tail d' [] s).db := by
  rw [exec, if_neg (by simp only [hf, Bool.false_eq_true, not_false_eq_true]), h]
  exact ⟨rfl, rfl⟩

theorem exec_commit_error {st : Store D R V W E} {k : Except E Unit → Prog S D R W E α}
    {fs : List Bool} {d : D} {ws : List W} {s : S} {e : E} (hf : fs.headD false = false)
    (h : st.applyAll ws d = .error e) :
    exec st (.commit k) fs d ws s = exec st (k (.error e)) fs.tail d [] s := by
  rw [exec, if_neg (by simp only [hf, Bool.false_eq_true, not_false_eq_true]), h]

/-- The last commit of a run without faults. -/
theorem exec_commitWork_ok {st : Store D R V W E} {d d' : D} {ws : List W} {s : S} (a : α)
    (h : st.applyAll ws d = .ok d') :
    (exec st (Prog.commitWork >>= fun _ => pure a) [] d ws s).value = .ok a ∧
      (exec st (Prog.commitWork >>= fun _ => pure a) [] d ws s).db = d' := by
  have hfault : ([] : List Bool).headD false = false := rfl
  exact exec_commit_ok (k := fun x => (Prog.ofExcept x).bind fun _ => pure a) hfault h

theorem exec_commitWork_error {st : Store D R V W E} {d : D} {ws : List W} {s : S} {e : E} (a : α)
    (h : st.applyAll ws d = .error e) :
    (exec st (Prog.commitWork >>= fun _ => pure a) [] d ws s).value = .error e := by
  have hfault : ([] : List Bool).headD false = false := rfl
  exact congrArg Outcome.value
    (exec_commit_error (k := fun x => (Prog.ofExcept x).bind fun _ => pure a) hfault h)

/-- A query that succeeds answers from the database it ran on. -/
theorem exec_query {st : Store D R V W E} {f : D → α} {fs : List Bool} {d : D} {ws : List W}
    {s : S} {a : α}
    (h : (exec st (Prog.select >>= fun d => pure (f d) : Prog S D R W E α) fs d ws s).value =
      .ok a) : a = f d := by
  change (exec st (.read _) fs d ws s).value = .ok a at h
  rw [exec] at h
  split at h
  · contradiction
  · exact (Except.ok.inj h).symm

/-- A program that reads first fails, or goes on with its answer. -/
theorem exec_select {st : Store D R V W E} {f : D → Prog S D R W E α} {fs : List Bool} {d : D}
    {ws : List W} {s : S} : exec st (Prog.select >>= f) fs d ws s =
      if fs.headD false then ⟨.error st.outage, d, []⟩ else exec st (f d) fs.tail d ws s := rfl

/-- A program that reads first and succeeds has got its answer. -/
theorem exec_select_bind {st : Store D R V W E} {f : D → Prog S D R W E α} {fs : List Bool} {d : D}
    {ws : List W} {s : S} {a : α} (h : (exec st (Prog.select >>= f) fs d ws s).value = .ok a) :
    (exec st (f d) fs.tail d ws s).value = .ok a := by
  rw [exec_select] at h
  split at h
  · contradiction
  · exact h

/-- A check that stands before a program that succeeds has passed. -/
theorem exec_ofExcept_bind {st : Store D R V W E} {x : Except E β} {f : β → Prog S D R W E α}
    {fs : List Bool} {d : D} {ws : List W} {s : S} {a : α}
    (h : (exec st (Prog.ofExcept x >>= f) fs d ws s).value = .ok a) :
    ∃ b, x = .ok b ∧ (exec st (f b) fs d ws s).value = .ok a := by
  cases x with
  | error e => contradiction
  | ok b => exact ⟨b, rfl, h⟩

end RowStore
