import FairDrop.Expiry

/-!
# FairDrop.Deadlock

Who waits for whom.  Everybody locks orders before reservations before
products, except that the sweep locks the order of a pending reservation after
the reservation and its product.  So a cycle of waits needs a sweep that has the
reservation and a settlement that has its order (`Crossed`), or passes that
visit their reservations in different orders: a reservation that is skipped
stays locked while the pass goes on.
-/

namespace FairDrop

open RowStore

/-! ## The lock order -/

section
variable {lt : Uuid → Uuid → Prop}

theorem Row.not_below_self (hirrefl : ∀ a, ¬ lt a a) (r : Row) : ¬ r.Below lt r := by
  intro h
  cases h with
  | reservations hlt => exact hirrefl _ hlt

theorem Row.below_trans (htrans : ∀ a b c, lt a b → lt b c → lt a c) (r₁ r₂ r₃ : Row)
    (h₁ : r₁.Below lt r₂) (h₂ : r₂.Below lt r₃) : r₁.Below lt r₃ := by
  cases h₁ with
  | orderReservation a b =>
      cases h₂ with
      | reservationProduct _ c => exact .orderProduct a c
      | reservations _ => exact .orderReservation a _
  | orderProduct a b => cases h₂
  | reservationProduct a b => cases h₂
  | @reservations a b hab =>
      cases h₂ with
      | reservationProduct _ c => exact .reservationProduct a c
      | reservations hbc => exact .reservations (htrans _ _ _ hab hbc)

end

/-- A query that is ordered by the id. -/
def idOrder : Scan Uuid := ⟨fun l => l.mergeSort (· ≤ ·), fun l => l.mergeSort_perm _⟩

theorem ascending_idOrder (env : Env) (expireOnCommit : Bool) :
    (Actor.sweep env expireOnCommit idOrder).Ascending (· < ·) := by
  intro d
  have hnodup : ((expiredIds d env.now).mergeSort (· ≤ ·)).Nodup := by
    rw [(List.mergeSort_perm _ _).nodup_iff]
    exact d.reservations.nodup.sublist (List.filter_sublist.map _)
  have hsorted : ((expiredIds d env.now).mergeSort (· ≤ ·)).Pairwise fun a b => (a ≤ b : Bool) := by
    apply List.pairwise_mergeSort
    · intro a b c hab hbc
      simp only [decide_eq_true_eq] at hab hbc ⊢
      exact le_trans hab hbc
    · intro a b
      simpa using le_total a b
  exact (hsorted.and hnodup).imp fun h => lt_of_le_of_ne (of_decide_eq_true h.1) h.2

/-! ## Crossing locks -/

section
variable {T : Type} {actors : T → Actor} {s s' : World T}

/-- The sweep `t` has locked the pending reservation `r`, and `u` has locked its
order to pay or cancel it. -/
structure Crossing (actors : T → Actor) (s : World T) (t u : T) (r : Reservation) (o : Order) :
    Prop where
  sweeps : (actors t).sweeps
  settles : (actors u).settles o
  hasReservation : s.owner (.reservation r.id) = some t
  reservation : s.db.reservations.get r.id = some r
  pending : r.status = .pending
  link : r.orderId = some o.id
  hasOrder : s.owner (.order o.id) = some u
  order : s.db.orders.get o.id = some o

def Apart (actors : T → Actor) (s : World T) : Prop := ∀ t u r o, ¬ Crossing actors s t u r o

/-- If `t` can be granted the row it asks for, no locks cross afterwards. -/
def KeepsApart [DecidableEq T] (actors : T → Actor) (s : World T) (t : T) : Prop :=
  ∀ row ∈ s.wants t, s.owner row = none ∨ s.owner row = some t → Apart actors (s.acquire t row)

/-! Whether locks cross can be computed from the rows. -/

instance [DecidableEq T] (t u : T) (r : Reservation) (o : Order) :
    Decidable (Crossing actors s t u r o) :=
  decidable_of_iff ((actors t).sweeps ∧ (actors u).settles o ∧
      s.owner (.reservation r.id) = some t ∧ s.db.reservations.get r.id = some r ∧
      r.status = .pending ∧ r.orderId = some o.id ∧ s.owner (.order o.id) = some u ∧
      s.db.orders.get o.id = some o)
    ⟨fun ⟨h₁, h₂, h₃, h₄, h₅, h₆, h₇, h₈⟩ => ⟨h₁, h₂, h₃, h₄, h₅, h₆, h₇, h₈⟩,
      fun ⟨h₁, h₂, h₃, h₄, h₅, h₆, h₇, h₈⟩ => ⟨h₁, h₂, h₃, h₄, h₅, h₆, h₇, h₈⟩⟩

instance {n : Nat} (actors : Fin n → Actor) (s : World (Fin n)) : Decidable (Apart actors s) :=
  decidable_of_iff (∀ t u, ∀ r ∈ s.db.reservations.rows, ∀ o ∈ s.db.orders.rows,
      ¬ Crossing actors s t u r o)
    ⟨fun h t u r o hcross =>
      h t u r (Table.mem_of_get hcross.reservation) o (Table.mem_of_get hcross.order) hcross,
      fun h t u r _ o _ => h t u r o⟩

instance {n : Nat} (actors : Fin n → Actor) (s : World (Fin n)) (t : Fin n) :
    Decidable (KeepsApart actors s t) :=
  inferInstanceAs (Decidable (∀ row ∈ s.wants t, _))

/-- Locks that cross after a step and were not taken in it crossed before. -/
theorem Crossing.before {t u : T} {r : Reservation} {o : Order} (h : Crossing actors s' t u r o)
    (howner : ∀ row v, s'.owner row = some v → s.owner row = some v)
    (hview : ∀ row v, s'.owner row = some v → store.view s'.db row = store.view s.db row) :
    Crossing actors s t u r o where
  sweeps := h.sweeps
  settles := h.settles
  hasReservation := howner _ _ h.hasReservation
  reservation := by
    have hrow := hview _ _ h.hasReservation
    have hget : s'.db.reservations.get r.id = s.db.reservations.get r.id := RowVal.reservation.inj hrow
    rw [← hget]
    exact h.reservation
  pending := h.pending
  link := h.link
  hasOrder := howner _ _ h.hasOrder
  order := by
    have hrow := hview _ _ h.hasOrder
    have hget : s'.db.orders.get o.id = s.db.orders.get o.id := RowVal.order.inj hrow
    rw [← hget]
    exact h.order

variable [DecidableEq T] {evs : List (Event Db Write T)} {lt : Uuid → Uuid → Prop}

theorem apart_step {t : T} {fault : Bool} {c : Option (List Write)} (h : Apart actors s)
    (hok : KeepsApart actors s t) (hs : s.step store t fault = some (c, s'))
    (hview : ∀ u row, u ≠ t → s.owner row = some u → store.view s'.db row = store.view s.db row) :
    Apart actors s' := by
  intro u v r o hcross
  obtain ⟨hdb, hkept⟩ | ⟨row, hwants, hfree, hdb, htaken⟩ | hgiven := Sys.owner_step hs
  · exact h u v r o (hcross.before hkept fun row v _ => by rw [hdb])
  · refine hok row hwants hfree u v r o (hcross.before ?_ fun row v _ => by rw [hdb]; rfl)
    intro row v hv
    rw [htaken] at hv
    exact hv
  · have hkept : ∀ row v, s'.owner row = some v → v ≠ t ∧ s.owner row = some v := by
      intro row v hv
      rw [hgiven] at hv
      simp only [Sys.release] at hv
      split at hv
      · contradiction
      · next hnot =>
          refine ⟨?_, hv⟩
          intro heq
          exact hnot (heq ▸ hv)
    refine h u v r o (hcross.before (fun row v hv => (hkept row v hv).2) fun row v hv => ?_)
    exact hview v row (hkept row v hv).1 (hkept row v hv).2

theorem apart_run (hsorted : ∀ t, (actors t).Ascending lt)
    (hrun : Run store (KeepsApart actors) (World.start actors) evs s) : Apart actors s := by
  have htracked : Tracked actors (KeepsApart actors) lt False fun _ _ _ => True :=
    tracked_of_ascending hsorted
  refine Run.induct_known htracked.start (invariants actors) htracked.grants ?_ ?_ hrun
  · intro t u r o h
    have hnone := h.hasOrder
    contradiction
  · intro s t fault c s' h hok hs hview
    exact apart_step h hok hs hview

/-! ## Waiting -/

/-- **No deadlock** in a run in which the passes visit the reservations in one
order, and no grant makes the locks of a sweep and a settlement cross. -/
theorem waits_acyclic (hirrefl : ∀ a, ¬ lt a a) (htrans : ∀ a b c, lt a b → lt b c → lt a c)
    (hsorted : ∀ t, (actors t).Ascending lt)
    (hrun : Run store (KeepsApart actors) (World.start actors) evs s) (t : T) :
    ¬ Relation.TransGen s.WaitsFor t t := by
  obtain ⟨htracks, hcoupled, _⟩ := World.tracks (tracked_of_ascending hsorted) hrun
  have hinv : ∀ t, ((actors t).rules lt False fun _ _ _ => True).inv s.db := by
    intro t
    rw [Actor.rules_inv]
    exact hcoupled
  refine acyclic_of_order (Row.not_below_self hirrefl) (Row.below_trans htrans) ?_ t
  intro t u row hwants hown hne hblocked row' hrow'
  obtain ⟨p, hp, _⟩ := htracks t
  obtain ⟨hrequest, _⟩ := Actor.request_cases (hp.request (hinv t) hwants)
  cases hrequest with
  | inl hup => exact hup row' ((hp.owned row').mp hrow')
  | inr hdown =>
      -- `t` sweeps; the order it asks for is locked by a settlement that waits
      obtain ⟨hsweeps, r, orderId, rfl, hmem, hr, hpending, hlink⟩ := hdown
      obtain ⟨pu, hpu, _⟩ := htracks u
      obtain ⟨v, _, row'', hwants', _⟩ := hblocked
      obtain ⟨_, hsettled⟩ := Actor.request_cases (hpu.request (hinv u) hwants')
      obtain ⟨o, ho⟩ := Option.isSome_iff_exists.mp (hpu.present_of_owner hown)
      have hid : o.id = orderId := Table.key_of_get ho
      subst hid
      have hcross : Crossing actors s t u r o :=
        ⟨hsweeps, hsettled o ((hpu.owned _).mp hown) ho, (hp.owned _).mpr hmem, hr, hpending, hlink,
          hown, ho⟩
      exact absurd hcross (apart_run hsorted hrun t u r o)

end

/-! ## A cancellation and a sweep -/

/-- An order is placed; its buyer cancels it when it is already due. -/
def lateActors (scan : Scan Uuid) : Fin 5 → Actor
  | 0 => .request (.createProduct seller.id lamp seller) (shopEnv 0 0)
  | 1 => .request (.reserveItems buyer.id "key" ⟨0, two⟩) (shopEnv 1 0)
  | 2 => .request (.createOrder buyer ⟨0, none⟩) (shopEnv 2 0)
  | 3 => .request (.cancelOrder 0 buyer) (shopEnv (reserveEnd + 2) 0)
  | 4 => .sweep (shopEnv (reserveEnd + 2) 0) workerExpireOnCommit scan

/-- The sweep may come to wait for the cancellation. -/
theorem waits_acyclic_in_turn : ∃ evs s,
    Run store (KeepsApart (lateActors idOrder)) (World.start (lateActors idOrder)) evs s ∧
      s.WaitsFor 4 3 ∧ ∀ t, ¬ Relation.TransGen s.WaitsFor t t := by
  have hexec : ((World.start (lateActors idOrder)).exec store
      (fun s t => decide (KeepsApart (lateActors idOrder) s t))
      (turns [(0, 6), (1, 6), (2, 9), (3, 5), (4, 1)])).any (fun x =>
        decide (x.2.wants 4 = some (.reservation 0) ∧ x.2.owner (.reservation 0) = some 3)) := by
    decide +kernel
  obtain ⟨evs, s, hrun, hwait⟩ := Run.of_exec_any (fun s t h => of_decide_eq_true h) hexec
  obtain ⟨hwants, howner⟩ := of_decide_eq_true hwait
  refine ⟨evs, s, hrun, ⟨by decide, _, hwants, howner⟩, fun t => ?_⟩
  apply waits_acyclic lt_irrefl (fun a b c => lt_trans) _ hrun
  intro t
  unfold lateActors
  split
  case h_5 => exact ascending_idOrder _ _
  all_goals trivial

/-- The cancellation has the order and asks for the reservation, the sweep has
the reservation and asks for the order. -/
theorem not_waits_acyclic : ¬ ∀ (T : Type) [DecidableEq T] (actors : T → Actor)
    (evs : List (Event Db Write T)) (s : World T), Run store Anything (World.start actors) evs s →
      ∀ t, ¬ Relation.TransGen s.WaitsFor t t := by
  intro hall
  have hexec : ((World.start (lateActors tableOrder)).exec store (fun _ _ => true)
      (turns [(0, 6), (1, 6), (2, 9), (3, 4), (4, 7)])).any (fun x =>
        decide (x.2.wants 3 = some (.reservation 0) ∧ x.2.owner (.reservation 0) = some 4 ∧
          x.2.wants 4 = some (.order 0) ∧ x.2.owner (.order 0) = some 3)) := by decide +kernel
  obtain ⟨evs, s, hrun, hcycle⟩ := Run.of_exec_any (fun _ _ _ => trivial) hexec
  obtain ⟨hwants, howner, hwants', howner'⟩ := of_decide_eq_true hcycle
  have hcancel : s.WaitsFor 3 4 := ⟨by decide, _, hwants, howner⟩
  have hsweep : s.WaitsFor 4 3 := ⟨by decide, _, hwants', howner'⟩
  exact hall _ _ evs s hrun 3 (.tail (.single hcancel) hsweep)

end FairDrop
