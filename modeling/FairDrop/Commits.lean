import FairDrop.Inventory.Commits
import FairDrop.Inventory.Sweep
import FairDrop.Orders.Commits

/-!
# FairDrop.Commits

Every call meets its obligations (`wp_program`).  Run alone, a request
therefore leaves the database as it was or makes the `Change` of its call
(`step_cases`), and every state of a run is coupled (`coupled_run`).
-/

namespace FairDrop

open RowStore

variable {lt : Uuid → Uuid → Prop} {env : Env} {snap : Option Db}

/-! ## Calls -/

/-- What a call may ask for: only the sweep goes down. -/
def Call.request (lt : Uuid → Uuid → Prop) (c : Call) (held : List Row) (d : Db) (r : Row) : Prop :=
  (match c with
    | .releaseReservation _ => Upward lt held r ∨ OwnOrder held d r
    | _ => Upward lt held r) ∧ HoldsSettled c.settles held d

def Call.rules (lt : Uuid → Uuid → Prop) (env : Env) (c : Call) : Rules Session Db Row Write where
  inv := Coupled
  grant _ _ _ := True
  request := c.request lt
  commit alone _ d d' := Change env alone d c d'

theorem Finished.map {α β : Type} {f : α → β} {r : Except Failure α}
    {p : Known Session Db Row RowVal Write} (h : Finished r p) : Finished (r.map f) p := by
  refine ⟨h.1, ?_⟩
  intro e he
  cases r with
  | ok a => contradiction
  | error e' =>
      obtain rfl := Except.error.inj he
      exact h.2 e' rfl

/-- A service that meets its rules is a call that meets its rules. -/
theorem wp_service {α : Type} {c : Call} {x : Tx α} {f : α → Response}
    (hservice : c.service env = f <$> x)
    (hrules : (requestRules lt env c).Weakens (c.rules lt env))
    (hx : wp store (requestRules lt env c) x (.start .fresh snap) Finished) :
    wp store (c.rules lt env) (c.service env) (.start .fresh snap) Finished := by
  rw [hservice]
  apply wp_map
  exact wp_mono (fun r p h => h.map) (wp_weaken hrules hx)

theorem wp_moderationCall {c : Call} {m : Moderation} (hc : c.moderation = some m)
    (hservice : c.service env =
      .product <$> moveProduct env m.move m.productId m.owner m.actor m.metadata)
    (hrules : (requestRules lt env c).Weakens (c.rules lt env)) :
    wp store (c.rules lt env) (c.service env) (.start .fresh snap) Finished :=
  wp_service hservice hrules (wp_moveProduct hc)

theorem wp_releaseCall (id : Uuid) :
    wp store (Call.rules lt env (.releaseReservation id)) (Call.service env (.releaseReservation id))
      (.start .fresh snap) Finished := by
  apply wp_map
  have hrules : (sweepRules lt True (fun _ _ _ => True) env (· = id)).Weakens
      (Call.rules lt env (.releaseReservation id)) := by
    refine ⟨fun _ h => h, fun _ _ _ h => h, fun _ _ _ h => h, ?_⟩
    rintro alone ws d d' ⟨_, rfl, h⟩
    exact h.change trivial
  apply wp_weaken hrules
  refine wp_releaseIteration rfl (fun _ => ready_fresh _) rfl (fun h hmem => by contradiction) ?_
  intro p _ _ _ hcommits
  exact .done hcommits

/-- **Every call** locks in order, commits its change or nothing, and ends with
its session closed. -/
theorem wp_program (c : Call) :
    wp store (c.rules lt env) (c.program env) (.start .fresh snap)
      fun r p => p.held = [] ∧ Finished r p := by
  apply wp_inSession
  have hservice : wp store (c.rules lt env) (c.service env) (.start .fresh snap) Finished := by
    have hrules : ∀ c : Call,
        (∀ held d r, (requestRules lt env c).request held d r → c.request lt held d r) →
        (requestRules lt env c).Weakens (c.rules lt env) :=
      fun _ hc => ⟨fun _ h => h, fun _ _ _ h => h, hc, fun _ _ _ _ h => h⟩
    cases c with
    | createProduct ownerId data user =>
        exact wp_service rfl (hrules _ fun _ _ _ h => h) (wp_createProduct ownerId data user)
    | updateProduct id data user =>
        exact wp_service rfl (hrules _ fun _ _ _ h => h) (wp_updateProduct id data user)
    | submitForModeration id user =>
        exact wp_moderationCall rfl rfl (hrules _ fun _ _ _ h => h)
    | changeStatus id status user =>
        exact wp_moderationCall rfl rfl (hrules _ fun _ _ _ h => h)
    | claimForModeration id user =>
        exact wp_moderationCall rfl rfl (hrules _ fun _ _ _ h => h)
    | approveProduct id user =>
        exact wp_moderationCall rfl rfl (hrules _ fun _ _ _ h => h)
    | rejectProduct id user reason =>
        exact wp_moderationCall rfl rfl (hrules _ fun _ _ _ h => h)
    | reserveItems userId key data =>
        exact wp_service rfl (hrules _ fun _ _ _ h => h) (wp_reserveItems userId key data)
    | createOrder user data =>
        exact wp_service rfl (hrules _ fun _ _ _ h => h) (wp_createOrder user data)
    | confirmOrderPayment id user =>
        exact wp_service rfl (hrules _ fun _ _ _ h => h) (wp_confirmOrderPayment id user)
    | cancelOrder id user =>
        exact wp_service rfl (hrules _ fun _ _ _ h => h) (wp_cancelOrder id user)
    | releaseReservation id => exact wp_releaseCall id
  exact wp_mono (fun r p h => ⟨rfl, h⟩) hservice

/-! ## Requests that run alone -/

theorem Call.keeps (c : Call) : (c.rules lt env).Keeps :=
  fun _ _ _ _ h hchange => hchange.coupled h

/-- A request that runs alone changes nothing, or commits the one change of its call. -/
theorem perform_cases {d : Db} (q : Request) (h : Coupled d) :
    ((q.perform d).commits = [] ∧ step d q = d) ∨
      ((q.perform d).commits ≠ [] ∧ Change q.env true d q.call (step d q)) := by
  have hprogram := @wp_program (fun _ _ => True) q.env (some d) q.call
  obtain ⟨hnil, hdb⟩ | ⟨ws, hone, hchange⟩ := exec_cases (fun _ _ _ => trivial) q.call.keeps
    hprogram (fun r p hQ => hQ.2.1) h q.faults
  · exact .inl ⟨hnil, hdb⟩
  · refine .inr ⟨?_, hchange⟩
    intro hnil
    have hcontra := hone.symm.trans hnil
    contradiction

theorem step_cases {d : Db} (q : Request) (h : Coupled d) :
    step d q = d ∨ Change q.env true d q.call (step d q) := by
  cases perform_cases q h with
  | inl hsame => exact .inl hsame.2
  | inr hchange => exact .inr hchange.2

theorem coupled_step {d : Db} (q : Request) (h : Coupled d) : Coupled (step d q) := by
  cases step_cases q h with
  | inl heq => rw [heq]; exact h
  | inr hchange => exact hchange.coupled h

theorem coupled_run (qs : List Request) : Coupled (run .empty qs) :=
  run_induct (fun _ q h => coupled_step q h) coupled_empty qs

end FairDrop
