import FairDrop.Commits
import FairDrop.RowStore.Interleave

/-!
# FairDrop.Actors

Requests and sweep passes side by side on one database, one statement at a
time.  A run starts on the empty database with any number of actors, so every
state that requests can lead to is the beginning of further ones.

`World.tracks` carries the obligations of the services over to runs: in every
state the tables are coupled, and every commit is the change of its actor.
-/

namespace FairDrop

open RowStore

/-! ## Actors -/

/-- Who runs: a request, or a pass of the expiry sweep. -/
inductive Actor where
  | request (call : Call) (env : Env)
  | sweep (env : Env) (expireOnCommit : Bool) (scan : Scan Uuid)

namespace Actor

def program : Actor → Tx Response
  | .request call env => call.program env
  | .sweep env expireOnCommit scan =>
      Prog.inSession ((fun _ => .none) <$> releaseExpiredReservations env expireOnCommit scan)

/-- What an actor may commit.  Nobody runs alone here. -/
def Commits (exact : Prop) (a : Actor) (d d' : Db) : Prop :=
  match a with
  | .request call env => Change env false d call d'
  | .sweep env _ _ => ∃ id, Release exact env d id d'

/-- The rules of an actor: those of its call or those of the sweep. -/
def rules (lt : Uuid → Uuid → Prop) (exact : Prop) (grant : Session → Db → Row → Prop) :
    Actor → Rules Session Db Row Write
  | .request call env => call.rules lt env
  | .sweep env _ _ => sweepRules lt exact grant env fun _ => True

/-- How an actor ends: with its session closed. -/
def Ends (a : Actor) (r : Except Failure Response) (p : Known Session Db Row RowVal Write) : Prop :=
  p.held = [] ∧ match a with
    | .request _ _ => Finished r p
    | .sweep _ _ _ => True

/-- A pass visits the reservations in the order `lt`. -/
def Ascending (lt : Uuid → Uuid → Prop) : Actor → Prop
  | .request _ _ => True
  | .sweep env _ scan => ∀ d, (scan.val (expiredIds d env.now)).Pairwise lt

theorem ascending_top (a : Actor) : a.Ascending fun _ _ => True := by
  unfold Ascending
  split
  · trivial
  · exact fun d => List.pairwise_of_forall fun _ _ => trivial

/-- Whoever releases expired reservations. -/
def sweeps : Actor → Bool
  | .request (.releaseReservation _) _ | .sweep _ _ _ => true
  | .request _ _ => false

/-- Whoever is about to pay or cancel `o`, and may. -/
def settles : Actor → Order → Prop
  | .request call _ => call.settles
  | .sweep _ _ _ => fun _ => False

instance (a : Actor) (o : Order) : Decidable (a.settles o) := by
  unfold settles
  split <;> infer_instance

/-- Its sessions forget the instances they have committed. -/
def Expires : Actor → Prop
  | .request _ _ => True
  | .sweep _ expireOnCommit _ => expireOnCommit = true

variable {lt : Uuid → Uuid → Prop} {exact : Prop} {grant : Session → Db → Row → Prop}

/-- **Every actor** meets its rules. -/
theorem wp_program (a : Actor) (hsorted : a.Ascending lt)
    (hfresh : a.Expires ∨ (exact → ∀ s, Ready grant s)) :
    wp store (a.rules lt exact grant) a.program (.start .fresh none) a.Ends := by
  cases a with
  | request call env => exact FairDrop.wp_program call
  | sweep env expireOnCommit scan =>
      apply wp_inSession
      apply wp_map
      exact wp_mono (fun r p _ => ⟨rfl, trivial⟩) (wp_releaseExpiredReservations (fun _ => trivial)
        (fun _ => ready_fresh grant) hsorted hfresh)

theorem rules_inv (a : Actor) : (a.rules lt exact grant).inv = Coupled := by
  cases a <;> rfl

theorem commits_of_rule {a : Actor} {ws : List Write} {d d' : Db}
    (h : (a.rules lt exact grant).commit false ws d d') : a.Commits exact d d' := by
  cases a with
  | request call env => exact h
  | sweep env expireOnCommit scan =>
      obtain ⟨id, _, hrelease⟩ := h
      exact ⟨id, hrelease⟩

/-- What an actor asks for: a row above all that it holds, or the order of a
pending reservation; and it holds no order but the one it settles. -/
theorem request_cases {a : Actor} {held : List Row} {d : Db} {r : Row}
    (h : (a.rules lt exact grant).request held d r) :
    (Upward lt held r ∨ (a.sweeps ∧ OwnOrder held d r)) ∧ HoldsSettled a.settles held d := by
  cases a with
  | sweep env expireOnCommit scan => exact ⟨h.1.imp_right fun hown => ⟨rfl, hown⟩, h.2⟩
  | request call env =>
      refine ⟨?_, h.2⟩
      cases call with
      | releaseReservation id => exact h.1.imp_right fun hown => ⟨rfl, hown⟩
      | _ => exact .inl h.1

theorem Commits.coupled {a : Actor} {d d' : Db} (hc : a.Commits exact d d') (h : Coupled d) :
    Coupled d' := by
  cases a with
  | request call env => exact Change.coupled h hc
  | sweep env expireOnCommit scan =>
      obtain ⟨id, hrelease⟩ := hc
      exact hrelease.coupled h

end Actor

/-! ## Runs -/

/-- The database, its locks, and the actors of `T` at work. -/
abbrev World (T : Type) := Sys Session Db Row Write Failure Response T

/-- Nobody has begun, and there are no rows. -/
def World.start {T : Type} (actors : T → Actor) : World T :=
  Sys.start Db.empty fun t => ((actors t).program, .fresh)

section
variable {T : Type} {actors : T → Actor} {ok : World T → T → Prop} {s : World T}
  {evs : List (Event Db Write T)} {lt : Uuid → Uuid → Prop} {exact : Prop}
  {grant : Session → Db → Row → Prop}

/-- What an event of a run is: nothing, or a commit of its actor. -/
def Lawful (actors : T → Actor) (exact : Prop) (ev : Event Db Write T) : Prop :=
  Coupled ev.before ∧ Coupled ev.after ∧ match ev.commit with
    | none => ev.after = ev.before
    | some _ => (actors ev.txn).Commits exact ev.before ev.after

theorem Lawful.cases {ev : Event Db Write T} (h : Lawful actors exact ev) :
    ev.after = ev.before ∨ (actors ev.txn).Commits exact ev.before ev.after := by
  obtain ⟨_, _, hcommit⟩ := h
  split at hcommit
  · exact .inl hcommit
  · exact .inr hcommit

theorem invariants (actors : T → Actor) :
    Invariants (fun t => (actors t).rules lt exact grant) .empty where
  start t := by
    rw [Actor.rules_inv]
    exact coupled_empty
  keep t u ws d d' h hc := by
    rw [Actor.rules_inv] at h ⊢
    exact (Actor.commits_of_rule hc).coupled h

/-- The assumptions under which runs are tracked: the passes go in the order
`lt`, their sessions expire or a grant vouches for them, and the steps of the
run meet what is assumed of grants. -/
structure Tracked (actors : T → Actor) (ok : World T → T → Prop) (lt : Uuid → Uuid → Prop)
    (exact : Prop) (grant : Session → Db → Row → Prop) : Prop where
  sorted : ∀ t, (actors t).Ascending lt
  fresh : ∀ t, (actors t).Expires ∨ (exact → ∀ s, Ready grant s)
  grants : ∀ s t, ok s t → GrantOk ((actors t).rules lt exact grant) s t

theorem Tracked.start (h : Tracked actors ok lt exact grant) (t : T) :
    wp store ((actors t).rules lt exact grant) (actors t).program (.start .fresh none)
      (actors t).Ends :=
  (actors t).wp_program (h.sorted t) (h.fresh t)

/-- Every run is tracked if nothing is asked of the stock that passes write. -/
theorem tracked_of_ascending (hsorted : ∀ t, (actors t).Ascending lt) :
    Tracked actors ok lt False fun _ _ _ => True where
  sorted := hsorted
  fresh := fun _ => .inr fun h => h.elim
  grants := fun s t _ => by
    intro find k r _ _
    cases hactor : actors t <;> trivial

variable [DecidableEq T]

/-- **Every state and every event** of a tracked run. -/
theorem World.tracks (h : Tracked actors ok lt exact grant)
    (hrun : Run store ok (World.start actors) evs s) :
    (∀ t, ∃ p, Tracks store ((actors t).rules lt exact grant) (actors t).Ends s t p ∧
      p.commits = commitsOf t evs) ∧ Coupled s.db ∧ ∀ ev ∈ evs, Lawful actors exact ev := by
  have hcoupled := Run.db_induct h.start (invariants actors) h.grants coupled_empty
    (fun t ws d d' hd hc => (Actor.commits_of_rule hc).coupled hd) hrun
  obtain ⟨htracks, _, hevs⟩ := Run.tracks h.start (invariants actors) h.grants hrun
  refine ⟨htracks, hcoupled.1, fun ev hev => ?_⟩
  obtain ⟨hbefore, hafter⟩ := hcoupled.2 ev hev
  refine ⟨hbefore, hafter, ?_⟩
  have hok := hevs ev hev
  unfold EventOk at hok
  split
  · next hnone =>
      rw [hnone] at hok
      exact hok
  · next ws hsome =>
      rw [hsome] at hok
      exact Actor.commits_of_rule hok

/-- The same of every run, if nothing is asked of the order of the passes and of
the stock that they write. -/
theorem World.tracks_any (hrun : Run store ok (World.start actors) evs s) :
    (∀ t, ∃ p, Tracks store ((actors t).rules (fun _ _ => True) False fun _ _ _ => True)
      (actors t).Ends s t p ∧ p.commits = commitsOf t evs) ∧
    Coupled s.db ∧ ∀ ev ∈ evs, Lawful actors False ev :=
  World.tracks (tracked_of_ascending fun t => (actors t).ascending_top) hrun

end

/-! ## Schedules -/

/-- A scan in the order of the table. -/
def tableOrder : Scan Uuid := ⟨id, fun _ => .refl _⟩

/-- When a reservation of the small shop made at time zero expires. -/
def reserveEnd : Timestamp := 15 * microsPerMinute

end FairDrop
