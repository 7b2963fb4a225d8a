import FairDrop.RowStore.Guarantee
import Mathlib.Algebra.Ring.Int.Defs
import Mathlib.Logic.Relation
import Mathlib.Tactic.ByContra

/-!
# Interleaved execution

Any number of transaction programs on one store, one statement at a time.  A
locked row has one owner; its lock is kept until the owner commits, rolls back
or fails.  A program that asks for a row owned by another one waits: it has no
step.  Every other program may be scheduled, and any statement may fail.

The proof principle is `Run.tracks`: if every program meets its `wp` knowing
nothing, then in every state of every run each program knows the content of
the rows it owns, because nobody else could have changed them.  Hence every
commit of the run meets the commit rule of its program.
-/

namespace RowStore

variable {S D R V W E α T : Type}

/-! ## States and steps -/

/-- A running program with its own transaction and session. -/
structure Proc (S D R W E α : Type) where
  prog : Prog S D R W E α
  pending : List W
  session : S

/-- The committed database, the lock table and the running programs. -/
structure Sys (S D R W E α T : Type) where
  db : D
  owner : R → Option T
  proc : T → Proc S D R W E α

/-- One step of a run as seen from outside. -/
structure Event (D W T : Type) where
  txn : T
  /-- The unit of work, if the step was a commit. -/
  commit : Option (List W)
  before : D
  after : D

/-- A schedule in blocks of steps, in which no statement fails. -/
def turns (l : List (T × Nat)) : List (T × Bool) :=
  l.flatMap fun x => List.replicate x.2 (x.1, false)

namespace Sys

variable [DecidableEq T] [DecidableEq R]

/-- Replace the program of `t`. -/
def resume (s : Sys S D R W E α T) (t : T) (q : Proc S D R W E α) : Sys S D R W E α T :=
  { s with proc := fun u => if u = t then q else s.proc u }

/-- Give up every lock of `t`. -/
def release (s : Sys S D R W E α T) (t : T) : Sys S D R W E α T :=
  { s with owner := fun r => if s.owner r = some t then none else s.owner r }

/-- Give row `r` to `t`. -/
def acquire (s : Sys S D R W E α T) (t : T) (r : R) : Sys S D R W E α T :=
  { s with owner := fun r' => if r' = r then some t else s.owner r' }

/-- The transaction of `t` is over without a commit; `x` is what remains to run. -/
def abort (s : Sys S D R W E α T) (t : T) (x : Prog S D R W E α) : Sys S D R W E α T :=
  (s.release t).resume t ⟨x, [], (s.proc t).session⟩

/-- One step of `t`: the database answers the next statement, or fails it when
`fault` is set.  `none` means that `t` waits for a row or has ended. -/
def step (st : Store D R V W E) (s : Sys S D R W E α T) (t : T) (fault : Bool) :
    Option (Option (List W) × Sys S D R W E α T) :=
  let q := s.proc t
  match q.prog with
  | .pure _ | .fail _ => none
  | .lock find k =>
      if fault then some (none, s.abort t (k (.error st.outage)))
      else match find s.db with
        | none => some (none, s.resume t { q with prog := k (.ok s.db) })
        | some r =>
            if s.owner r = none ∨ s.owner r = some t then
              some (none, (s.acquire t r).resume t { q with prog := k (.ok s.db) })
            else none
  | .read k =>
      if fault then some (none, s.abort t (k (.error st.outage)))
      else some (none, s.resume t { q with prog := k (.ok s.db) })
  | .write w k => some (none, s.resume t { q with prog := k, pending := q.pending ++ [w] })
  | .commit k =>
      if fault then some (none, s.abort t (k (.error st.outage)))
      else match st.applyAll q.pending s.db with
        | .ok d => some (some q.pending, { s.abort t (k (.ok ())) with db := d })
        | .error e => some (none, s.abort t (k (.error e)))
  | .rollback k => some (none, s.abort t k)
  | .session k => some (none, s.resume t { q with prog := k q.session })
  | .setSession σ k => some (none, s.resume t { q with prog := k, session := σ })

/-- The programs `q` at their beginning: nobody holds a lock. -/
def start (d : D) (q : T → Prog S D R W E α × S) : Sys S D R W E α T where
  db := d
  owner := fun _ => none
  proc := fun t => ⟨(q t).1, [], (q t).2⟩

/-- Run a schedule, as long as its steps meet `ok`: who moves, and whether the
statement fails. -/
def exec (st : Store D R V W E) (ok : Sys S D R W E α T → T → Bool) (s : Sys S D R W E α T) :
    List (T × Bool) → Option (List (Event D W T) × Sys S D R W E α T)
  | [] => some ([], s)
  | (t, fault) :: sched =>
      if ok s t then match s.step st t fault with
        | some (c, s') =>
            (exec st ok s' sched).map fun x => (⟨t, c, s.db, s'.db⟩ :: x.1, x.2)
        | none => none
      else none

/-- How the program of `t` has ended. -/
def ended (s : Sys S D R W E α T) (t : T) : Option (Except E α) :=
  match (s.proc t).prog with
  | .pure a => some (.ok a)
  | .fail e => some (.error e)
  | _ => none

def succeeded (s : Sys S D R W E α T) (t : T) : Bool :=
  match s.ended t with
  | some (.ok _) => true
  | _ => false

omit [DecidableEq T] [DecidableEq R] in
theorem prog_of_ended {s : Sys S D R W E α T} {t : T} {r : Except E α} (h : s.ended t = some r) :
    (s.proc t).prog = Prog.ofExcept r := by
  unfold ended at h
  split at h
  · next a hprog =>
      rw [hprog, ← Option.some.inj h]
      rfl
  · next e hprog =>
      rw [hprog, ← Option.some.inj h]
      rfl
  · contradiction

omit [DecidableEq T] [DecidableEq R] in
theorem ended_of_succeeded {s : Sys S D R W E α T} {t : T} (h : s.succeeded t) :
    ∃ a, s.ended t = some (.ok a) := by
  unfold succeeded at h
  split at h
  · next a hended => exact ⟨a, hended⟩
  · contradiction

/-- `t` is at a commit. -/
def committing (s : Sys S D R W E α T) (t : T) : Bool :=
  match (s.proc t).prog with
  | .commit _ => true
  | _ => false

/-- The row `t` is asking for. -/
def wants (s : Sys S D R W E α T) (t : T) : Option R :=
  match (s.proc t).prog with
  | .lock find _ => find s.db
  | _ => none

/-- `t` is blocked by `u`: it asks for a row that `u` has locked. -/
def WaitsFor (s : Sys S D R W E α T) (t u : T) : Prop :=
  u ≠ t ∧ ∃ r, s.wants t = some r ∧ s.owner r = some u

end Sys

/-- What a step of `t` can be, by the statement that `t` is at. -/
inductive Sys.Steps [DecidableEq T] [DecidableEq R] (st : Store D R V W E)
    (s : Sys S D R W E α T) (t : T) : Option (List W) → Sys S D R W E α T → Prop
  | lock {find k} (hprog : (s.proc t).prog = .lock find k) (hfind : find s.db = none) :
      s.Steps st t none (s.resume t ⟨k (.ok s.db), (s.proc t).pending, (s.proc t).session⟩)
  | grant {find k r} (hprog : (s.proc t).prog = .lock find k) (hfind : find s.db = some r)
      (hfree : s.owner r = none ∨ s.owner r = some t) :
      s.Steps st t none
        ((s.acquire t r).resume t ⟨k (.ok s.db), (s.proc t).pending, (s.proc t).session⟩)
  | lockFails {find k} (hprog : (s.proc t).prog = .lock find k) :
      s.Steps st t none (s.abort t (k (.error st.outage)))
  | read {k} (hprog : (s.proc t).prog = .read k) :
      s.Steps st t none (s.resume t ⟨k (.ok s.db), (s.proc t).pending, (s.proc t).session⟩)
  | readFails {k} (hprog : (s.proc t).prog = .read k) :
      s.Steps st t none (s.abort t (k (.error st.outage)))
  | write {w k} (hprog : (s.proc t).prog = .write w k) :
      s.Steps st t none (s.resume t ⟨k, (s.proc t).pending ++ [w], (s.proc t).session⟩)
  | commit {k d} (hprog : (s.proc t).prog = .commit k)
      (happly : st.applyAll (s.proc t).pending s.db = .ok d) :
      s.Steps st t (some (s.proc t).pending) { s.abort t (k (.ok ())) with db := d }
  | commitRefused {k e} (hprog : (s.proc t).prog = .commit k)
      (happly : st.applyAll (s.proc t).pending s.db = .error e) :
      s.Steps st t none (s.abort t (k (.error e)))
  | commitFails {k} (hprog : (s.proc t).prog = .commit k) :
      s.Steps st t none (s.abort t (k (.error st.outage)))
  | rollback {k} (hprog : (s.proc t).prog = .rollback k) : s.Steps st t none (s.abort t k)
  | session {k} (hprog : (s.proc t).prog = .session k) :
      s.Steps st t none (s.resume t ⟨k (s.proc t).session, (s.proc t).pending, (s.proc t).session⟩)
  | setSession {σ k} (hprog : (s.proc t).prog = .setSession σ k) :
      s.Steps st t none (s.resume t ⟨k, (s.proc t).pending, σ⟩)

theorem Sys.steps [DecidableEq T] [DecidableEq R] {st : Store D R V W E}
    {s s' : Sys S D R W E α T} {t : T} {fault : Bool} {c : Option (List W)}
    (hs : s.step st t fault = some (c, s')) : s.Steps st t c s' := by
  unfold Sys.step at hs
  cases hp : (s.proc t).prog with
  | pure a | fail e => simp [hp] at hs
  | lock find k =>
      simp only [hp] at hs
      split at hs
      · obtain ⟨rfl, rfl⟩ := by simpa using hs
        exact .lockFails hp
      · split at hs
        · next hfind =>
            obtain ⟨rfl, rfl⟩ := by simpa using hs
            exact .lock hp hfind
        · next hfind =>
            split at hs
            · next hfree =>
                obtain ⟨rfl, rfl⟩ := by simpa using hs
                exact .grant hp hfind hfree
            · contradiction
  | read k =>
      simp only [hp] at hs
      split at hs
      · obtain ⟨rfl, rfl⟩ := by simpa using hs
        exact .readFails hp
      · obtain ⟨rfl, rfl⟩ := by simpa using hs
        exact .read hp
  | write w k =>
      simp only [hp] at hs
      obtain ⟨rfl, rfl⟩ := by simpa using hs
      exact .write hp
  | commit k =>
      simp only [hp] at hs
      split at hs
      · obtain ⟨rfl, rfl⟩ := by simpa using hs
        exact .commitFails hp
      · split at hs
        · next happly =>
            obtain ⟨rfl, rfl⟩ := by simpa using hs
            exact .commit hp happly
        · next happly =>
            obtain ⟨rfl, rfl⟩ := by simpa using hs
            exact .commitRefused hp happly
  | rollback k =>
      simp only [hp] at hs
      obtain ⟨rfl, rfl⟩ := by simpa using hs
      exact .rollback hp
  | session k =>
      simp only [hp] at hs
      obtain ⟨rfl, rfl⟩ := by simpa using hs
      exact .session hp
  | setSession σ k =>
      simp only [hp] at hs
      obtain ⟨rfl, rfl⟩ := by simpa using hs
      exact .setSession hp

/-- The program of `t` after it has been replaced. -/
theorem Sys.proc_resume [DecidableEq T] (s : Sys S D R W E α T) (t : T) (q : Proc S D R W E α) :
    (s.resume t q).proc t = q := if_pos rfl

theorem Sys.proc_abort [DecidableEq T] (s : Sys S D R W E α T) (t : T) (x : Prog S D R W E α) :
    (s.abort t x).proc t = ⟨x, [], (s.proc t).session⟩ := if_pos rfl

theorem Sys.proc_commit [DecidableEq T] (s : Sys S D R W E α T) (t : T) (x : Prog S D R W E α)
    (d : D) : ({ s.abort t x with db := d } : Sys S D R W E α T).proc t =
      ⟨x, [], (s.proc t).session⟩ := if_pos rfl

/-- The database after a step: its unit of work was applied, if it was a commit. -/
theorem Sys.step_db [DecidableEq T] [DecidableEq R] {st : Store D R V W E}
    {s s' : Sys S D R W E α T} {t : T} {fault : Bool} {c : Option (List W)}
    (hs : s.step st t fault = some (c, s')) : st.applyAll (c.getD []) s.db = .ok s'.db := by
  cases Sys.steps hs with
  | commit hp happly => exact happly
  | lock | grant | lockFails | read | readFails | write | commitRefused | commitFails | rollback
  | session | setSession => rfl

/-- Who has committed was at a commit. -/
theorem Sys.committing_of_step [DecidableEq T] [DecidableEq R] {st : Store D R V W E}
    {s s' : Sys S D R W E α T} {t : T} {fault : Bool} {c : Option (List W)}
    (hs : s.step st t fault = some (c, s')) (hc : c.isSome) : s.committing t := by
  cases Sys.steps hs with
  | commit hp => simp [Sys.committing, hp]
  | lock | grant | lockFails | read | readFails | write | commitRefused | commitFails | rollback
  | session | setSession => contradiction

/-! ## Runs -/

section Runs
variable [DecidableEq T] [DecidableEq R]

/-- The runs from `s₀` in which every step meets the condition `ok` on the state
before it and the program that moves. -/
inductive Run (st : Store D R V W E) (ok : Sys S D R W E α T → T → Prop)
    (s₀ : Sys S D R W E α T) : List (Event D W T) → Sys S D R W E α T → Prop
  | nil : Run st ok s₀ [] s₀
  | snoc {evs s t fault c s'} : Run st ok s₀ evs s → ok s t →
      s.step st t fault = some (c, s') → Run st ok s₀ (evs ++ [⟨t, c, s.db, s'.db⟩]) s'

/-- Every step is allowed. -/
abbrev Anything : Sys S D R W E α T → T → Prop := fun _ _ => True

/-- There is at most one, so any two are one. -/
theorem eq_of_countP_le_one {α : Type} {l : List α} {p : α → Bool} (h : l.countP p ≤ 1) {a b : α}
    (ha : a ∈ l) (hpa : p a) (hb : b ∈ l) (hpb : p b) : a = b := by
  rw [List.countP_eq_length_filter] at h
  have ha' : a ∈ l.filter p := List.mem_filter.mpr ⟨ha, hpa⟩
  have hb' : b ∈ l.filter p := List.mem_filter.mpr ⟨hb, hpb⟩
  generalize l.filter p = found at h ha' hb'
  match found, h with
  | [x], _ => rw [List.mem_singleton.mp ha', List.mem_singleton.mp hb']

namespace Run

variable {st : Store D R V W E} {ok : Sys S D R W E α T → T → Prop} {s₀ s s' : Sys S D R W E α T}
  {evs evs' : List (Event D W T)}

theorem append (h : Run st ok s₀ evs s) (h' : Run st ok s evs' s') :
    Run st ok s₀ (evs ++ evs') s' := by
  induction h' with
  | nil => simpa using h
  | snoc _ hok hstep ih =>
      rw [← List.append_assoc]
      exact .snoc ih hok hstep

theorem eq_start (h : Run st ok s₀ [] s) : s = s₀ := by
  generalize hnil : [] = l at h
  cases h with
  | nil => rfl
  | snoc => simp at hnil

/-- A run ends where its last event has led. -/
theorem db_of_snoc {ev : Event D W T} (h : Run st ok s₀ (evs ++ [ev]) s) : s.db = ev.after := by
  generalize hlast : evs ++ [ev] = l at h
  cases h with
  | nil => simp at hlast
  | snoc =>
      obtain ⟨-, hev⟩ := List.append_inj' hlast rfl
      obtain rfl := List.singleton_inj.mp hev
      rfl

/-- The steps before an event are a run that ends where the event begins. -/
theorem before_event (h : Run st ok s₀ evs s) {pre post : List (Event D W T)} {ev : Event D W T}
    (hsplit : evs = pre ++ ev :: post) : ∃ s₁, Run st ok s₀ pre s₁ ∧ s₁.db = ev.before := by
  induction h generalizing post with
  | nil =>
      have hlength := congrArg List.length hsplit
      simp at hlength
  | @snoc evs s t fault c s' hrun _ _ ih =>
      obtain rfl | ⟨mid, last, rfl⟩ := List.eq_nil_or_concat post
      · obtain ⟨rfl, hev⟩ := List.append_inj' hsplit rfl
        obtain rfl := List.singleton_inj.mp hev
        exact ⟨s, hrun, rfl⟩
      · have hcut : evs ++ [⟨t, c, s.db, s'.db⟩] = (pre ++ ev :: mid) ++ [last] := by
          rw [hsplit]
          simp
        obtain ⟨hfront, _⟩ := List.append_inj' hcut rfl
        exact ih hfront

/-- The state in which a commit of the run was made. -/
theorem at_commit (h : Run st ok s₀ evs s) {ev : Event D W T} (hev : ev ∈ evs)
    (hc : ev.commit.isSome) : ∃ pre s₁, Run st ok s₀ pre s₁ ∧ ok s₁ ev.txn ∧
      s₁.committing ev.txn ∧ s₁.db = ev.before := by
  induction h with
  | nil => contradiction
  | @snoc evs s t fault c s' hrun hok hs ih =>
      cases List.mem_append.mp hev with
      | inl hold => exact ih hold
      | inr hlast =>
          obtain rfl := List.mem_singleton.mp hlast
          exact ⟨evs, s, hrun, hok, Sys.committing_of_step hs hc, rfl⟩

/-- What an event brings about and the later ones keep holds from there on. -/
theorem from_event {I : D → Prop} (h : Run st ok s₀ evs s) {pre post : List (Event D W T)}
    {ev : Event D W T} (hsplit : evs = pre ++ ev :: post) (hfirst : I ev.after)
    (hkeep : ∀ ev' ∈ post, I ev'.before → I ev'.after) :
    I s.db ∧ ∀ ev' ∈ post, I ev'.before := by
  induction h generalizing post with
  | nil =>
      have hlength := congrArg List.length hsplit
      simp at hlength
  | @snoc evs s t fault c s' _ _ _ ih =>
      obtain rfl | ⟨mid, last, rfl⟩ := List.eq_nil_or_concat post
      · obtain ⟨-, hev⟩ := List.append_inj' hsplit rfl
        obtain rfl := List.singleton_inj.mp hev
        exact ⟨hfirst, by simp⟩
      · have hcut : evs ++ [⟨t, c, s.db, s'.db⟩] = (pre ++ ev :: mid) ++ [last] := by
          rw [hsplit]
          simp
        obtain ⟨hfront, hlast⟩ := List.append_inj' hcut rfl
        obtain rfl := List.singleton_inj.mp hlast
        obtain ⟨hnow, hmid⟩ := ih hfront fun ev' hev' => hkeep ev' (by simp [hev'])
        refine ⟨hkeep ⟨t, c, s.db, s'.db⟩ (by simp) hnow, fun ev' hev' => ?_⟩
        cases List.mem_append.mp (by simpa using hev' : ev' ∈ mid ++ [⟨t, c, s.db, s'.db⟩]) with
        | inl hold => exact hmid ev' hold
        | inr hnew => exact List.mem_singleton.mp hnew ▸ hnow

/-- What an event did to the database. -/
theorem event_db (h : Run st ok s₀ evs s) :
    ∀ ev ∈ evs, st.applyAll (ev.commit.getD []) ev.before = .ok ev.after := by
  induction h with
  | nil => simp
  | @snoc evs s t fault c s' _ _ hs ih =>
      intro ev hev
      cases List.mem_append.mp hev with
      | inl hold => exact ih ev hold
      | inr hlast =>
          obtain rfl := List.mem_singleton.mp hlast
          exact Sys.step_db hs

/-- A schedule that goes through is a run. -/
theorem of_exec {check : Sys S D R W E α T → T → Bool} (hcheck : ∀ s t, check s t → ok s t)
    {sched : List (T × Bool)} (h : s.exec st check sched = some (evs, s')) :
    Run st ok s evs s' := by
  induction sched generalizing s evs with
  | nil =>
      rw [Sys.exec, Option.some.injEq, Prod.mk.injEq] at h
      obtain ⟨rfl, rfl⟩ := h
      exact .nil
  | cons m sched ih =>
      obtain ⟨t, fault⟩ := m
      rw [Sys.exec] at h
      split at h
      · next hok =>
          split at h
          · next c s₁ hs =>
              obtain ⟨x, hx, hpair⟩ := Option.map_eq_some_iff.mp h
              obtain ⟨rfl, rfl⟩ := Prod.mk.inj hpair
              exact (Run.nil.snoc (hcheck s t hok) hs).append (ih hx)
          · contradiction
      · contradiction

/-- Some run ends in a way that a schedule was seen to end. -/
theorem of_exec_any {check : Sys S D R W E α T → T → Bool} (hcheck : ∀ s t, check s t → ok s t)
    {sched : List (T × Bool)} {p : List (Event D W T) × Sys S D R W E α T → Bool}
    (h : (s.exec st check sched).any p) : ∃ evs s', Run st ok s evs s' ∧ p (evs, s') := by
  obtain ⟨x, hx, hp⟩ := (Option.any_eq_true _ _).mp h
  exact ⟨x.1, x.2, of_exec hcheck hx, hp⟩

/-- What holds at the start and is kept by every event holds all the time. -/
theorem keeps {I : D → Prop} (h : Run st ok s₀ evs s) (hstart : I s₀.db)
    (hkeep : ∀ ev ∈ evs, I ev.before → I ev.after) :
    I s.db ∧ ∀ ev ∈ evs, I ev.before ∧ I ev.after := by
  induction h with
  | nil => exact ⟨hstart, by simp⟩
  | @snoc evs s t fault c s' _ _ _ ih =>
      obtain ⟨hnow, hevs⟩ := ih fun ev hev => hkeep ev (by simp [hev])
      have hlast : I s'.db := hkeep ⟨t, c, s.db, s'.db⟩ (by simp) hnow
      refine ⟨hlast, fun ev hmem => ?_⟩
      cases List.mem_append.mp hmem with
      | inl hold => exact hevs ev hold
      | inr hnew => exact List.mem_singleton.mp hnew ▸ ⟨hnow, hlast⟩

/-- Whatever every event keeps is kept from any point of the run to its end. -/
theorem since {r : D → D → Prop} (hrefl : ∀ d, r d d) (htrans : ∀ a b c, r a b → r b c → r a c)
    (h : Run st ok s₀ evs s) (hev : ∀ ev ∈ evs, r ev.before ev.after) :
    ∀ ev ∈ evs, r ev.before s.db ∧ r ev.after s.db := by
  induction h with
  | nil => simp
  | @snoc evs s t fault c s' _ _ _ ih =>
      intro ev hmem
      have hlast : r s.db s'.db := hev ⟨t, c, s.db, s'.db⟩ (by simp)
      cases List.mem_append.mp hmem with
      | inl hold =>
          obtain ⟨hbefore, hafter⟩ := ih (fun e he => hev e (by simp [he])) ev hold
          exact ⟨htrans _ _ _ hbefore hlast, htrans _ _ _ hafter hlast⟩
      | inr hnew =>
          rw [List.mem_singleton] at hnew
          subst hnew
          exact ⟨hlast, hrefl _⟩

/-- Events that raise a flag which is never lowered: there is at most one. -/
theorem countP_le_one {f : D → Bool} {p : Event D W T → Bool} (h : Run st ok s₀ evs s)
    (hkeep : ∀ ev ∈ evs, f ev.before → f ev.after)
    (hraise : ∀ ev ∈ evs, p ev → f ev.before = false ∧ f ev.after) : evs.countP p ≤ 1 := by
  have hcount : evs.countP p ≤ (f s.db).toNat := by
    induction h with
    | nil => simp
    | @snoc evs s t fault c s' _ _ _ ih =>
        have hrest := ih (fun e he => hkeep e (by simp [he])) fun e he => hraise e (by simp [he])
        have hlast : f s.db → f s'.db := hkeep ⟨t, c, s.db, s'.db⟩ (by simp)
        rw [List.countP_append, List.countP_singleton]
        split
        · next hp =>
            obtain ⟨hbefore, hafter⟩ := hraise _ (by simp) hp
            rw [hbefore] at hrest
            rw [hafter]
            simpa using hrest
        · cases hflag : f s.db with
          | false =>
              rw [hflag] at hrest
              have hzero : evs.countP p = 0 := by simpa using hrest
              omega
          | true =>
              rw [hflag] at hrest
              rw [hlast hflag]
              exact hrest
  exact Nat.le_trans hcount (Bool.toNat_le _)

/-- A quantity that every event changes by `g` has changed by their sum. -/
theorem sum_eq {f : D → Int} {g : Event D W T → Int} (h : Run st ok s₀ evs s)
    (hev : ∀ ev ∈ evs, f ev.after = f ev.before + g ev) :
    f s.db = f s₀.db + (evs.map g).sum := by
  induction h with
  | nil => simp
  | @snoc evs s t fault c s' _ _ _ ih =>
      have hlast := hev ⟨t, c, s.db, s'.db⟩ (by simp)
      have hrest := ih fun e he => hev e (by simp [he])
      simp only [List.map_append, List.sum_append, List.map_cons, List.map_nil, List.sum_cons,
        List.sum_nil] at hlast ⊢
      omega

end Run

end Runs

/-! ## What a program knows during a run -/

/-- If `t` asks for a row now, the assumption about grants holds. -/
def GrantOk (ru : Rules S D R W) (s : Sys S D R W E α T) (t : T) : Prop :=
  ∀ find k r, (s.proc t).prog = .lock find k → find s.db = some r →
    ru.grant (s.proc t).session s.db r

/-- `p` describes what `t` knows in `s`, and the rest of the program of `t`
keeps its rules from there. -/
structure Tracks (st : Store D R V W E) (ru : Rules S D R W)
    (Q : Except E α → Known S D R V W → Prop) (s : Sys S D R W E α T) (t : T)
    (p : Known S D R V W) : Prop where
  rest : wp st ru (s.proc t).prog p Q
  agrees : p.Agrees st s.db
  snapshot : p.snapshot = none
  owned : ∀ r, s.owner r = some t ↔ r ∈ p.rows
  present : ∀ x ∈ p.held, st.present x.2
  pending : (s.proc t).pending = p.pending
  session : (s.proc t).session = p.session

namespace Tracks

variable {st : Store D R V W E} {ru : Rules S D R W} {Q : Except E α → Known S D R V W → Prop}
  {s : Sys S D R W E α T} {t u : T} {p : Known S D R V W}

/-- A step of another program that keeps the owned rows is not noticed. -/
theorem other (h : Tracks st ru Q s t p) {s' : Sys S D R W E α T}
    (hproc : s'.proc t = s.proc t) (howner : ∀ r, s'.owner r = some t ↔ s.owner r = some t)
    (hview : ∀ r, s.owner r = some t → st.view s'.db r = st.view s.db r) :
    Tracks st ru Q s' t p where
  rest := hproc ▸ h.rest
  agrees := by
    refine ⟨fun x hx => ?_, by simp [h.snapshot]⟩
    have hown : s.owner x.1 = some t := (h.owned x.1).mpr (List.mem_map_of_mem hx)
    rw [hview _ hown]
    exact h.agrees.1 x hx
  snapshot := h.snapshot
  owned := fun r => (howner r).trans (h.owned r)
  present := h.present
  pending := hproc ▸ h.pending
  session := hproc ▸ h.session

/-- A program that has ended meets its end condition. -/
theorem ended (h : Tracks st ru Q s t p) {r : Except E α} (hended : s.ended t = some r) : Q r p := by
  have hrest := h.rest
  rw [Sys.prog_of_ended hended] at hrest
  cases r <;> exact hrest

/-- At its start a program knows nothing, and holds no row. -/
theorem start {d : D} {q : T → Prog S D R W E α × S}
    (hwp : wp st ru (q t).1 (.start (q t).2 none) Q) :
    Tracks st ru Q (.start d q) t (.start (q t).2 none) where
  rest := hwp
  agrees := Known.agrees_start _ _ (by simp)
  snapshot := rfl
  owned := by simp [Sys.start, Known.start, Known.rows]
  present := by simp [Known.start]
  pending := rfl
  session := rfl

/-- A locked row exists. -/
theorem present_of_owner (h : Tracks st ru Q s t p) {r : R} (hr : s.owner r = some t) :
    st.present (st.view s.db r) := by
  obtain ⟨x, hx, rfl⟩ := List.mem_map.mp ((h.owned r).mp hr)
  rw [h.agrees.1 x hx]
  exact h.present x hx

/-- What a program asks for meets its request rule. -/
theorem request (h : Tracks st ru Q s t p) (hinv : ru.inv s.db) {r : R}
    (hr : s.wants t = some r) : ru.request p.rows s.db r := by
  have hrest := h.rest
  unfold Sys.wants at hr
  split at hr
  · next find k hp =>
      rw [hp] at hrest
      have hgo := hrest.1 s.db h.agrees hinv
      rw [hr] at hgo
      exact hgo.2.1
  · contradiction

end Tracks

/-! ## Soundness -/

section
variable {st : Store D R V W E} {ru : Rules S D R W} {Q : Except E α → Known S D R V W → Prop}
  {s s' : Sys S D R W E α T} {t : T} {c : Option (List W)} {fault : Bool} {p p' : Known S D R V W}

/-- What a step of a program does to the database: nothing, or one commit that
meets the commit rule and stays inside the locked rows. -/
inductive StepOk (st : Store D R V W E) (ru : Rules S D R W) (s s' : Sys S D R W E α T)
    (p p' : Known S D R V W) : Option (List W) → Prop
  | quiet : s'.db = s.db → p'.commits = p.commits → StepOk st ru s s' p p' none
  | commit {ws} : ru.commit false ws s.db s'.db → Frame st p.rows s.db s'.db →
      p'.commits = p.commits + 1 → StepOk st ru s s' p p' (some ws)

/-- A row that another program has locked is as it was. -/
theorem StepOk.view {ru' : Rules S D R W} {Q' : Except E α → Known S D R V W → Prop} {u : T}
    {q : Known S D R V W} (h : StepOk st ru s s' p p' c) (hp : Tracks st ru Q s u p)
    (hq : Tracks st ru' Q' s t q) (hne : t ≠ u) {r : R} (hr : s.owner r = some t) :
    st.view s'.db r = st.view s.db r := by
  cases h with
  | quiet hdb _ => rw [hdb]
  | commit _ hframe _ =>
      by_contra hview
      cases hframe r hview with
      | inl hmine =>
          have hu := (hp.owned r).mpr hmine
          rw [hr] at hu
          exact hne (Option.some.inj hu)
      | inr hnew => exact hnew (hq.present_of_owner hr)

section Moves
variable [DecidableEq T]

/-- The transaction of `t` ends, and the database is left as `d`. -/
theorem tracks_ended {p : Known S D R V W} {x : Prog S D R W E α} {d : D}
    (hx : wp st ru x p Q) (hag : p.Agrees st d) (hheld : p.held = []) (hpend : p.pending = [])
    (hsnap : p.snapshot = none) (hsess : (s.proc t).session = p.session) :
    Tracks st ru Q { s.abort t x with db := d } t p where
  rest := by simpa [Sys.abort, Sys.resume] using hx
  agrees := hag
  snapshot := hsnap
  owned := by
    intro r
    simp only [Sys.abort, Sys.resume, Sys.release, Known.rows, hheld, List.map_nil,
      List.not_mem_nil, iff_false]
    split <;> simp_all
  present := by simp [hheld]
  pending := by simp [Sys.abort, Sys.resume, hpend]
  session := by simp [Sys.abort, Sys.resume, hsess]

/-- `t` rolls back, or its statement fails. -/
theorem Tracks.abort (h : Tracks st ru Q s t p) {x : Prog S D R W E α}
    (hx : wp st ru x p.abort Q) : Tracks st ru Q (s.abort t x) t p.abort :=
  tracks_ended hx h.agrees.abort rfl rfl h.snapshot h.session

/-- `t` commits. -/
theorem Tracks.commit (h : Tracks st ru Q s t p) {x : Prog S D R W E α} {d : D}
    (hx : wp st ru x (p.committed d) Q) :
    Tracks st ru Q { s.abort t x with db := d } t (p.committed d) :=
  tracks_ended hx (Known.agrees_committed p d) rfl rfl (by simp [Known.committed, h.snapshot])
    h.session

/-- A step of `t` that neither takes nor gives up a lock. -/
theorem Tracks.resume (h : Tracks st ru Q s t p) {x : Prog S D R W E α}
    (hx : wp st ru x p' Q) (hheld : p'.held = p.held) (hsnap : p'.snapshot = p.snapshot) :
    Tracks st ru Q (s.resume t ⟨x, p'.pending, p'.session⟩) t p' where
  rest := by simpa [Sys.resume] using hx
  agrees := ⟨fun y hy => h.agrees.1 y (hheld ▸ hy), by simp [hsnap, h.snapshot]⟩
  snapshot := hsnap.trans h.snapshot
  owned := by
    intro r
    rw [Known.rows, hheld]
    exact h.owned r
  present := by rw [hheld]; exact h.present
  pending := by simp [Sys.resume]
  session := by simp [Sys.resume]

/-- `t` gets row `r`. -/
theorem Tracks.acquire [DecidableEq R] (h : Tracks st ru Q s t p) {x : Prog S D R W E α} {r : R}
    (hx : wp st ru x (p.hold r (st.view s.db r)) Q) (hr : st.present (st.view s.db r)) :
    Tracks st ru Q ((s.acquire t r).resume t ⟨x, p.pending, p.session⟩) t
      (p.hold r (st.view s.db r)) where
  rest := by simpa [Sys.resume] using hx
  agrees := h.agrees.hold r
  snapshot := h.snapshot
  owned := by
    intro r'
    simp only [Sys.resume, Sys.acquire, Known.rows_hold, List.mem_cons]
    split
    · next he => simp [he]
    · next he => simp [he, h.owned r']
  present := by
    intro y hy
    rcases List.mem_cons.mp hy with rfl | hy
    · exact hr
    · exact h.present y hy
  pending := by simp [Sys.resume, Known.hold]
  session := by simp [Sys.resume, Known.hold]

end Moves

variable [DecidableEq T] [DecidableEq R]

/-- The program that moves keeps track of what it knows. -/
theorem step_self (h : Tracks st ru Q s t p) (hinv : ru.inv s.db) (hgrant : GrantOk ru s t)
    (hs : s.step st t fault = some (c, s')) :
    ∃ p', Tracks st ru Q s' t p' ∧ StepOk st ru s s' p p' c := by
  have hrest := h.rest
  have hpend := h.pending
  have hsess := h.session
  cases Sys.steps hs with
  | lock hp hfind =>
      rw [hp] at hrest
      have hgo := hrest.1 s.db h.agrees hinv
      rw [hfind] at hgo
      rw [hpend, hsess]
      exact ⟨p, h.resume hgo rfl rfl, .quiet rfl rfl⟩
  | grant hp hfind hfree =>
      rw [hp] at hrest
      have hgo := hrest.1 s.db h.agrees hinv
      rw [hfind] at hgo
      rw [hpend, hsess]
      have hnext := hgo.2.2 (hsess ▸ hgrant _ _ _ hp hfind)
      exact ⟨_, h.acquire hnext hgo.1, .quiet rfl rfl⟩
  | lockFails hp | readFails hp | commitFails hp =>
      rw [hp] at hrest
      exact ⟨p.abort, h.abort hrest.2, .quiet rfl rfl⟩
  | read hp =>
      rw [hp] at hrest
      rw [hpend, hsess]
      exact ⟨p, h.resume (hrest.1 s.db h.agrees hinv) rfl rfl, .quiet rfl rfl⟩
  | @write w k hp =>
      rw [hp] at hrest
      rw [hpend, hsess]
      have hnext : wp st ru k (p.push w) Q := hrest
      exact ⟨p.push w, h.resume hnext rfl rfl, .quiet rfl rfl⟩
  | commit hp happly =>
      rw [hp] at hrest
      have hgo := hrest.1 s.db h.agrees hinv
      rw [hpend] at happly ⊢
      rw [happly] at hgo
      have hrule := hgo.1
      rw [h.snapshot] at hrule
      exact ⟨_, h.commit hgo.2.2, .commit hrule hgo.2.1 rfl⟩
  | commitRefused hp happly =>
      rw [hp] at hrest
      have hgo := hrest.1 s.db h.agrees hinv
      rw [hpend] at happly
      rw [happly] at hgo
      exact ⟨p.abort, h.abort hgo, .quiet rfl rfl⟩
  | rollback hp =>
      rw [hp] at hrest
      exact ⟨p.abort, h.abort hrest, .quiet rfl rfl⟩
  | session hp =>
      rw [hp] at hrest
      rw [hpend, hsess]
      exact ⟨p, h.resume hrest rfl rfl, .quiet rfl rfl⟩
  | @setSession σ k hp =>
      rw [hp] at hrest
      rw [hpend]
      have hnext : wp st ru k { p with session := σ } Q := hrest
      exact ⟨{ p with session := σ }, h.resume hnext rfl rfl, .quiet rfl rfl⟩

/-- A step of `u` leaves the program and the locks of every other `t` alone. -/
theorem step_other {u : T} (hne : t ≠ u) (hs : s.step st u fault = some (c, s')) :
    s'.proc t = s.proc t ∧ ∀ r, s'.owner r = some t ↔ s.owner r = some t := by
  have habort : ∀ (x : Prog S D R W E α) (r : R),
      (s.abort u x).owner r = some t ↔ s.owner r = some t := by
    intro x r
    simp only [Sys.abort, Sys.resume, Sys.release]
    split
    · next hu => simp [hu, Ne.symm hne]
    · rfl
  cases Sys.steps hs with
  | grant hp hfind hfree =>
      refine ⟨by simp [Sys.resume, Sys.acquire, hne], fun r' => ?_⟩
      simp only [Sys.resume, Sys.acquire]
      split
      · next he =>
          rcases hfree with hf | hf <;> simp [he, hf, Ne.symm hne]
      · rfl
  | lockFails | readFails | commitRefused | commitFails | rollback =>
      exact ⟨by simp [Sys.abort, Sys.resume, Sys.release, hne], habort _⟩
  | @commit k d hp happly =>
      exact ⟨by simp [Sys.abort, Sys.resume, Sys.release, hne], habort (k (.ok ()))⟩
  | lock | read | write | session | setSession =>
      exact ⟨by simp [Sys.resume, hne], fun r => Iff.rfl⟩

/-- Who has ended stays so. -/
theorem Sys.ended_step {u : T} (hs : s.step st u fault = some (c, s')) {x : Except E α}
    (hx : s.ended t = some x) : s'.ended t = some x := by
  by_cases htu : t = u
  · subst htu
    cases hp : (s.proc t).prog with
    | pure a => simp [Sys.step, hp] at hs
    | fail e => simp [Sys.step, hp] at hs
    | _ => simp [Sys.ended, hp] at hx
  · obtain ⟨hproc, _⟩ := step_other htu hs
    rw [Sys.ended, hproc]
    exact hx

theorem Sys.ended_map_step {γ : Type} {u : T} {f : Except E α → γ}
    (hs : (s.step st u fault).map Prod.snd = some s') {x : γ} (hx : (s.ended t).map f = some x) :
    (s'.ended t).map f = some x := by
  obtain ⟨⟨c, s₁⟩, hstep, rfl⟩ := Option.map_eq_some_iff.mp hs
  obtain ⟨y, hy, rfl⟩ := Option.map_eq_some_iff.mp hx
  rw [ended_step hstep hy]
  rfl

end

/-! ## Runs keep track -/

/-- How often `t` committed. -/
def commitsOf [DecidableEq T] (t : T) (evs : List (Event D W T)) : Nat :=
  evs.countP fun ev => ev.txn = t ∧ ev.commit.isSome

theorem commit_of_commitsOf [DecidableEq T] {t : T} {evs : List (Event D W T)}
    (h : commitsOf t evs = 0) : ∀ ev ∈ evs, ev.txn = t → ev.commit = none := by
  intro ev hev ht
  have hnot := List.countP_eq_zero.mp h ev hev
  simpa [ht] using hnot

theorem exists_of_commitsOf [DecidableEq T] {t : T} {evs : List (Event D W T)}
    (h : 0 < commitsOf t evs) : ∃ ev ∈ evs, ev.txn = t ∧ ev.commit.isSome := by
  obtain ⟨ev, hev, hcommit⟩ := List.countP_pos_iff.mp h
  exact ⟨ev, hev, of_decide_eq_true hcommit⟩

section
variable {st : Store D R V W E} {ru : T → Rules S D R W}
  {Q : T → Except E α → Known S D R V W → Prop} {ok : Sys S D R W E α T → T → Prop}
  {s₀ s : Sys S D R W E α T} {evs : List (Event D W T)} [DecidableEq T] [DecidableEq R]

/-- What every event of a run is: a quiet step, or a commit that meets the rule
of the program that made it. -/
def EventOk (ru : T → Rules S D R W) (ev : Event D W T) : Prop :=
  match ev.commit with
  | none => ev.after = ev.before
  | some ws => (ru ev.txn).commit false ws ev.before ev.after

/-- The invariants of all programs hold of `d` at the start, and no commit of
any of them breaks the invariant of another. -/
structure Invariants (ru : T → Rules S D R W) (d : D) : Prop where
  start : ∀ t, (ru t).inv d
  keep : ∀ t u ws d d', (ru t).inv d → (ru u).commit false ws d d' → (ru t).inv d'

/-- If every program meets its `wp` at the start, and each moves in databases that
have its invariant, then each program knows its rows and has committed as often
as it believes, and every event of the run keeps the rules. -/
theorem Run.tracks_of_inv {d : D} {q : T → Prog S D R W E α × S}
    (hstart : ∀ t, wp st (ru t) (q t).1 (.start (q t).2 none) (Q t))
    (hgrant : ∀ s t, ok s t → GrantOk (ru t) s t) (h : Run st ok (.start d q) evs s)
    (hinv : ∀ ev ∈ evs, (ru ev.txn).inv ev.before) :
    (∀ t, ∃ p, Tracks st (ru t) (Q t) s t p ∧ p.commits = commitsOf t evs) ∧
      ∀ ev ∈ evs, EventOk ru ev := by
  induction h with
  | nil => exact ⟨fun t => ⟨_, .start (hstart t), rfl⟩, by simp⟩
  | @snoc evs s u fault c s' hrun hok hs ih =>
      obtain ⟨htracks, hevs⟩ := ih fun ev hev => hinv ev (by simp [hev])
      obtain ⟨p, hp, hpc⟩ := htracks u
      have hnow : (ru u).inv s.db := hinv ⟨u, c, s.db, s'.db⟩ (by simp)
      obtain ⟨p', hp', hstep⟩ := step_self hp hnow (hgrant s u hok) hs
      refine ⟨?_, ?_⟩
      · intro t
        by_cases htu : t = u
        · subst htu
          refine ⟨p', hp', ?_⟩
          cases hstep with
          | quiet _ hc => simp [commitsOf, hc, hpc]
          | commit _ _ hc => simp [commitsOf, hc, hpc]
        · obtain ⟨pt, hpt, hptc⟩ := htracks t
          obtain ⟨hproc, howner⟩ := step_other htu hs
          refine ⟨pt, hpt.other hproc howner fun r hr => hstep.view hp hpt htu hr, ?_⟩
          simp [commitsOf, hptc, Ne.symm htu]
      · intro ev hev
        rcases List.mem_append.mp hev with hev | hev
        · exact hevs ev hev
        · rw [List.mem_singleton] at hev
          subst hev
          cases hstep with
          | quiet hdb _ => exact hdb
          | commit hrule _ _ => exact hrule

/-- **Runs keep track**: if every program meets its `wp` at the start, then in
every state of a run the invariants hold, each program knows its rows and has
committed as often as it believes; and every event of the run keeps the rules. -/
theorem Run.tracks {d : D} {q : T → Prog S D R W E α × S}
    (hstart : ∀ t, wp st (ru t) (q t).1 (.start (q t).2 none) (Q t)) (hinv : Invariants ru d)
    (hgrant : ∀ s t, ok s t → GrantOk (ru t) s t) (h : Run st ok (.start d q) evs s) :
    (∀ t, ∃ p, Tracks st (ru t) (Q t) s t p ∧ p.commits = commitsOf t evs) ∧
      (∀ t, (ru t).inv s.db) ∧ ∀ ev ∈ evs, EventOk ru ev := by
  have hinvs : (∀ t, (ru t).inv s.db) ∧ ∀ ev ∈ evs, ∀ t, (ru t).inv ev.before := by
    induction h with
    | nil => exact ⟨hinv.start, by simp⟩
    | @snoc evs s u fault c s' hrun hok hs ih =>
        obtain ⟨hnow, hbefore⟩ := ih
        have hall : ∀ ev ∈ evs ++ [⟨u, c, s.db, s'.db⟩], ∀ t, (ru t).inv ev.before := by
          intro ev hev
          cases List.mem_append.mp hev with
          | inl hold => exact hbefore ev hold
          | inr hlast => exact List.mem_singleton.mp hlast ▸ hnow
        refine ⟨fun t => ?_, hall⟩
        have hlast := (Run.tracks_of_inv hstart hgrant (.snoc hrun hok hs)
          fun ev hev => hall ev hev ev.txn).2 ⟨u, c, s.db, s'.db⟩ (by simp)
        cases c with
        | none => exact (show s'.db = s.db from hlast) ▸ hnow t
        | some ws => exact hinv.keep t u ws _ _ (hnow t) hlast
  obtain ⟨htracks, hevs⟩ := Run.tracks_of_inv hstart hgrant h fun ev hev => hinvs.2 ev hev ev.txn
  exact ⟨htracks, hinvs.1, hevs⟩

/-- An invariant of the committed database: it holds at the start, and every
commit that meets the rule of some program keeps it. -/
theorem Run.db_induct {I : D → Prop} {d : D} {q : T → Prog S D R W E α × S}
    (hstart : ∀ t, wp st (ru t) (q t).1 (.start (q t).2 none) (Q t)) (hinv : Invariants ru d)
    (hgrant : ∀ s t, ok s t → GrantOk (ru t) s t) (h₀ : I d)
    (hkeep : ∀ t ws d d', I d → (ru t).commit false ws d d' → I d')
    (h : Run st ok (.start d q) evs s) : I s.db ∧ ∀ ev ∈ evs, I ev.before ∧ I ev.after := by
  obtain ⟨_, _, hevs⟩ := Run.tracks hstart hinv hgrant h
  refine h.keeps h₀ fun ev hev hI => ?_
  have hok := hevs ev hev
  unfold EventOk at hok
  split at hok
  · rw [hok]
    exact hI
  · exact hkeep ev.txn _ _ _ hI hok

/-- An invariant of the whole system: it holds at the start, and every step
keeps it, where a step leaves the rows that others have locked alone. -/
theorem Run.induct_known {I : Sys S D R W E α T → Prop} {d : D} {q : T → Prog S D R W E α × S}
    (hstart : ∀ t, wp st (ru t) (q t).1 (.start (q t).2 none) (Q t)) (hinv : Invariants ru d)
    (hgrant : ∀ s t, ok s t → GrantOk (ru t) s t) (h₀ : I (.start d q))
    (hkeep : ∀ s u fault c s', I s → ok s u → s.step st u fault = some (c, s') →
      (∀ t r, t ≠ u → s.owner r = some t → st.view s'.db r = st.view s.db r) → I s')
    (h : Run st ok (.start d q) evs s) : I s := by
  induction h with
  | nil => exact h₀
  | @snoc evs s u fault c s' hrun hok hs ih =>
      obtain ⟨htracks, hinvs, _⟩ := Run.tracks hstart hinv hgrant hrun
      obtain ⟨p, hp, _⟩ := htracks u
      obtain ⟨p', _, hstep⟩ := step_self hp (hinvs u) (hgrant s u hok) hs
      refine hkeep s u fault c s' ih hok hs fun t r hne hr => ?_
      obtain ⟨pt, hpt, _⟩ := htracks t
      exact hstep.view hp hpt hne hr

end

/-! ## Waiting -/

section
variable {s s' : Sys S D R W E α T}

/-- What a step does to the locks: it takes none, it takes the one asked for if
nobody else has it, or it gives all of them up. -/
theorem Sys.owner_step [DecidableEq T] [DecidableEq R] {st : Store D R V W E} {t : T} {fault : Bool}
    {c : Option (List W)} (h : s.step st t fault = some (c, s')) :
    (s'.db = s.db ∧ ∀ r u, s'.owner r = some u → s.owner r = some u) ∨
      (∃ r, s.wants t = some r ∧ (s.owner r = none ∨ s.owner r = some t) ∧ s'.db = s.db ∧
        s'.owner = (s.acquire t r).owner) ∨
      s'.owner = (s.release t).owner := by
  cases Sys.steps h with
  | @grant find k r hp hfind hfree =>
      have hwants : s.wants t = some r := by
        rw [Sys.wants, hp]
        exact hfind
      exact .inr (.inl ⟨r, hwants, hfree, rfl, rfl⟩)
  | lockFails | readFails | commit | commitRefused | commitFails | rollback =>
      exact .inr (.inr rfl)
  | lock | read | write | session | setSession => exact .inl ⟨rfl, fun _ _ hr => hr⟩

/-- If blocked programs only ever ask upwards in some order of the rows, the
waits-for graph has no cycle.  A wait for a program that is not blocked itself
does not count. -/
theorem acyclic_of_order {lt : R → R → Prop} (hirrefl : ∀ r, ¬ lt r r)
    (htrans : ∀ a b c, lt a b → lt b c → lt a c)
    (h : ∀ t u r, s.wants t = some r → s.owner r = some u → u ≠ t → (∃ v, s.WaitsFor u v) →
      ∀ r', s.owner r' = some t → lt r' r) (t : T) :
    ¬ Relation.TransGen s.WaitsFor t t := by
  -- Along a path of waits the last row asked for is above the first one.
  have hpath : ∀ {t u : T}, Relation.TransGen s.WaitsFor t u → (∃ v, s.WaitsFor u v) →
      ∀ r, s.wants t = some r → ∃ r', s.owner r' = some u ∧ (r = r' ∨ lt r r') := by
    intro t u hp
    induction hp with
    | single hw =>
        intro _ r hr
        obtain ⟨_, r', hr', hown⟩ := hw
        rw [hr] at hr'
        obtain rfl := Option.some.inj hr'
        exact ⟨r, hown, .inl rfl⟩
    | tail _ hw ih =>
        intro hnext r hr
        obtain ⟨r', hown', hle⟩ := ih ⟨_, hw⟩ r hr
        obtain ⟨hne, r'', hr'', hown''⟩ := hw
        have hup : lt r' r'' := h _ _ _ hr'' hown'' hne hnext _ hown'
        refine ⟨r'', hown'', .inr ?_⟩
        cases hle with
        | inl heq => exact heq ▸ hup
        | inr hlt => exact htrans _ _ _ hlt hup
  intro hcycle
  obtain ⟨u, hfirst, hrest⟩ := Relation.TransGen.head'_iff.mp hcycle
  have hu : ∃ v, s.WaitsFor u v := by
    cases Relation.ReflTransGen.cases_head hrest with
    | inl heq => exact absurd heq hfirst.1
    | inr hstep =>
        obtain ⟨v, hv, _⟩ := hstep
        exact ⟨v, hv⟩
  obtain ⟨hne, r, hr, hown⟩ := id hfirst
  obtain ⟨r', hown', hle⟩ := hpath hcycle ⟨u, hfirst⟩ r hr
  have hup : lt r' r := h t u r hr hown hne hu r' hown'
  cases hle with
  | inl heq => exact hirrefl r (heq ▸ hup)
  | inr hlt => exact hirrefl r (htrans _ _ _ hlt hup)

end

end RowStore
