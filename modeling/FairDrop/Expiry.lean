import FairDrop.Actors
import FairDrop.Stock

/-!
# FairDrop.Expiry

What the sweep adds to the shelf.  The row lock makes the loop look safe, but
the value written is the session's: an instance that the session kept from the
previous iteration is not refreshed by `SELECT … FOR UPDATE`, so the pass is
right exactly while that instance and the committed row agree
(`SeesCommitted`).  Sessions that expire their instances at commit are right in
every run.
-/

namespace FairDrop

open RowStore

section
variable {T : Type} {actors : T → Actor}

/-- If the session of `t` still holds an instance of the product row that `t`
asks for, it shows the committed stock. -/
def SeesCommitted (s : World T) (t : T) : Prop :=
  match (s.proc t).session.product with
  | some (id, qty) => s.wants t = some (.product id) → qty = stock s.db id
  | none => True

instance (s : World T) (t : T) : Decidable (SeesCommitted s t) := by
  unfold SeesCommitted
  split <;> infer_instance

/-- One pending reservation expires, and its units are all that the shelves gain
or lose. -/
def AddsReserved (d d' : Db) : Prop :=
  ∃ r, d.reservations.get r.id = some r ∧ r.status = .pending ∧
    d'.reservations.get r.id = some { r with status := .expired } ∧
    ∀ p, stock d' p = stock d p + if r.productId = p then r.qtyReserved else 0

/-! ## Releases -/

theorem addsReserved_of_change {env : Env} {alone : Bool} {id : Uuid} {d d' : Db}
    (hc : Change env alone d (.releaseReservation id) d') : AddsReserved d d' := by
  cases hc with
  | moderate _ _ _ _ hm => contradiction
  | releaseReservation r products orders hget hstatus hstock =>
      have hid : r.id = id := Table.key_of_get hget
      have hexpired : (d.reservations.set { r with status := .expired }).get r.id =
          some { r with status := .expired } := Table.get_set_self (x := r) (hid ▸ hget)
      have hshelf := Restocks.stock (e := { d with products := products }) hstock
      exact ⟨r, hid ▸ hget, hstatus, hexpired, hshelf⟩

theorem addsReserved_of_commits {a : Actor} {d d' : Db} (hc : a.Commits True d d')
    (hsweeps : a.sweeps) : AddsReserved d d' := by
  cases a with
  | sweep env expireOnCommit scan =>
      obtain ⟨id, hrelease⟩ := hc
      have hchange : Change env false d (.releaseReservation id) d' := hrelease.change trivial
      exact addsReserved_of_change hchange
  | request call env =>
      cases call with
      | releaseReservation id => exact addsReserved_of_change hc
      | _ => contradiction

/-! ## Runs -/

/-- A grant finds the session's instance, if there is one, as it is committed. -/
def UpToDate (s : Session) (d : Db) (r : Row) : Prop :=
  match s.product with
  | some (id, qty) => r = .product id → qty = stock d id
  | none => True

theorem ready_upToDate (s : Session) : Ready UpToDate s := by
  intro d x hx hgrant
  unfold UpToDate at hgrant
  unfold Session.qtyAvailable
  split
  · next id qty hinstance =>
      rw [hinstance] at hgrant
      split
      · next hid =>
          subst hid
          rw [hgrant rfl, stock_of_get hx]
      · rfl
  · rfl

theorem tracked_seesCommitted :
    Tracked actors SeesCommitted (fun _ _ => True) True UpToDate where
  sorted := fun t => (actors t).ascending_top
  fresh := fun t => .inr fun _ => ready_upToDate
  grants := fun s t hsees => by
    intro find k r hprog hfind
    have hwants : s.wants t = some r := by
      rw [Sys.wants, hprog]
      exact hfind
    cases hactor : actors t with
    | request call env => trivial
    | sweep env expireOnCommit scan =>
        change UpToDate (s.proc t).session s.db r
        unfold SeesCommitted at hsees
        unfold UpToDate
        split
        · next id qty hinstance =>
            rw [hinstance] at hsees
            intro hr
            exact hsees (hr ▸ hwants)
        · trivial

variable [DecidableEq T] {ok : World T → T → Prop} {s : World T} {evs : List (Event Db Write T)}
  {lt : Uuid → Uuid → Prop} {grant : Session → Db → Row → Prop}

theorem addsReserved_of_tracked (h : Tracked actors ok lt True grant)
    (hrun : Run store ok (World.start actors) evs s) :
    ∀ ev ∈ evs, (actors ev.txn).sweeps → ev.commit.isSome →
      AddsReserved ev.before ev.after := by
  intro ev hev hsweeps hcommit
  obtain ⟨_, _, hlaw⟩ := (World.tracks h hrun).2.2 ev hev
  obtain ⟨ws, hws⟩ := Option.isSome_iff_exists.mp hcommit
  rw [hws] at hlaw
  exact addsReserved_of_commits hlaw hsweeps

/-- **No stock update is lost** in a run in which every pass that still holds an
instance of the product it asks for holds it as committed: each release that
commits adds the reserved units to the committed stock, and nothing else. -/
theorem release_adds_reserved (hrun : Run store SeesCommitted (World.start actors) evs s) :
    ∀ ev ∈ evs, (actors ev.txn).sweeps → ev.commit.isSome →
      AddsReserved ev.before ev.after :=
  addsReserved_of_tracked tracked_seesCommitted hrun

/-- Passes whose sessions expire their instances at commit need no condition. -/
theorem release_adds_reserved_of_expires (hexpires : ∀ t, (actors t).Expires)
    (hrun : Run store Anything (World.start actors) evs s) :
    ∀ ev ∈ evs, (actors ev.txn).sweeps → ev.commit.isSome →
      AddsReserved ev.before ev.after := by
  have htracked : Tracked actors Anything (fun _ _ => True) True fun _ _ _ => True := by
    refine ⟨fun t => (actors t).ascending_top, fun t => .inl (hexpires t), fun s t _ => ?_⟩
    intro find k r _ _
    cases hactor : actors t <;> trivial
  exact addsReserved_of_tracked htracked hrun

end

/-! ## A pass that is overtaken -/

/-- Two reservations of one product expire; a third request may come between
their releases. -/
def sweepActors : Fin 5 → Actor
  | 0 => .request (.createProduct seller.id lamp seller) (shopEnv 0 0)
  | 1 => .request (.reserveItems buyer.id "first" ⟨0, two⟩) (shopEnv 1 1)
  | 2 => .request (.reserveItems buyer.id "second" ⟨0, two⟩) (shopEnv 2 2)
  | 3 => .sweep (shopEnv (reserveEnd + 3) 0) workerExpireOnCommit tableOrder
  | 4 => .request (.reserveItems buyer.id "third" ⟨0, three⟩) (shopEnv 3 3)

theorem release_adds_reserved_undisturbed : ∃ evs s,
    Run store SeesCommitted (World.start sweepActors) evs s ∧
      (∀ ev ∈ evs, (sweepActors ev.txn).sweeps → ev.commit.isSome →
        AddsReserved ev.before ev.after) ∧
      (evs.countP fun ev => (sweepActors ev.txn).sweeps && ev.commit.isSome) = 2 := by
  have hexec : ((World.start sweepActors).exec store (fun s t => decide (SeesCommitted s t))
      (turns [(0, 6), (1, 6), (2, 6), (3, 16)])).any (fun x => decide ((x.1.countP fun ev =>
        (sweepActors ev.txn).sweeps && ev.commit.isSome) = 2)) := by decide +kernel
  obtain ⟨evs, s, hrun, hcount⟩ := Run.of_exec_any (fun s t h => of_decide_eq_true h) hexec
  exact ⟨evs, s, hrun, release_adds_reserved hrun, of_decide_eq_true hcount⟩

/-- The third request commits between the releases: the second one writes back
a stock of ten although five units are on the shelf. -/
theorem not_release_adds_reserved : ¬ ∀ (T : Type) [DecidableEq T] (actors : T → Actor)
    (evs : List (Event Db Write T)) (s : World T), Run store Anything (World.start actors) evs s →
      ∀ ev ∈ evs, (actors ev.txn).sweeps → ev.commit.isSome →
        AddsReserved ev.before ev.after := by
  intro hall
  have hexec : ((World.start sweepActors).exec store (fun _ _ => true)
      (turns [(0, 6), (1, 6), (2, 6), (3, 9), (4, 6), (3, 6)])).any (fun x => x.1.any fun ev =>
        decide ((sweepActors ev.txn).sweeps ∧ ev.commit.isSome ∧
          stock ev.after 0 = stock ev.before 0 + 5 ∧
            ∀ r ∈ ev.before.reservations.rows, r.qtyReserved < 5)) := by decide +kernel
  obtain ⟨evs, s, hrun, hlost⟩ := Run.of_exec_any (fun _ _ _ => trivial) hexec
  obtain ⟨ev, hev, hlost⟩ := List.any_eq_true.mp hlost
  obtain ⟨hsweeps, hcommit, hfive, hsmall⟩ := of_decide_eq_true hlost
  obtain ⟨r, hr, _, _, hadds⟩ := hall _ sweepActors evs s hrun ev hev hsweeps hcommit
  have hlt := hsmall r (Table.mem_of_get hr)
  have hstock := hadds 0
  split at hstock <;> omega

end FairDrop
