import FairDrop.ExpiryPass
import FairDrop.RowStore.Serial

/-!
# FairDrop.Inventory.InternalCalls

The internal API of the inventory (`inventory/internal.py`) without its callers:
each function in a transaction of its own, and an iteration of the sweep.  Only
the iteration looks at the status of the reservation.  What keeps units from
coming back twice is the caller who asks for a reservation that is still open
(`InternalCall.Guarded`).
-/

namespace FairDrop

open RowStore

/-! ## Calls -/

inductive InternalCall where
  | markCompleted (reservationId : Uuid)
  | markCompletedByOrder (orderId : Uuid)
  | cancel (env : Env) (reservationId : Uuid)
  | cancelByOrder (env : Env) (orderId : Uuid)
  /-- One iteration of the sweep. -/
  | release (env : Env) (reservationId : Uuid)

def InternalCall.program : InternalCall → Tx Unit
  | .markCompleted id => do
      markReservationAsCompleted id
      Prog.commitWork
  | .markCompletedByOrder orderId => do
      markReservationByOrderAsCompleted orderId
      Prog.commitWork
  | .cancel env id => do
      cancelReservationAndReturnStock env id
      Prog.commitWork
  | .cancelByOrder env orderId => do
      cancelReservationByOrderAndReturnStock env orderId
      Prog.commitWork
  | .release env id => releaseIteration env workerExpireOnCommit id

/-- The status that a call gives to its reservation. -/
def InternalCall.status : InternalCall → OrderStatus
  | .markCompleted _ | .markCompletedByOrder _ => .completed
  | .cancel _ _ | .cancelByOrder _ _ => .cancelled
  | .release _ _ => .expired

/-- A call is on the reservation `id`: it names it, or its order. -/
def InternalCall.On (d : Db) (id : Uuid) : InternalCall → Prop
  | .markCompleted id' | .cancel _ id' | .release _ id' => id' = id
  | .markCompletedByOrder orderId | .cancelByOrder _ orderId =>
      ∀ r ∈ d.reservations.rows, r.orderId = some orderId → r.id = id

/-- The statuses that a reservation keeps. -/
def Reservation.settled (r : Reservation) : Bool := r.status = .completed ∨ r.released

/-- The caller has looked: a reservation to be cancelled is not settled, and one to be
completed has not let go of its units. -/
def InternalCall.Guarded (r : Reservation) : InternalCall → Prop
  | .markCompleted _ | .markCompletedByOrder _ => r.released = false
  | .cancel _ _ | .cancelByOrder _ _ => r.settled = false
  | .release _ _ => True

instance (d : Db) (id : Uuid) (c : InternalCall) : Decidable (c.On d id) := by
  cases c <;> unfold InternalCall.On <;> infer_instance

instance (r : Reservation) (c : InternalCall) : Decidable (c.Guarded r) := by
  cases c <;> unfold InternalCall.Guarded <;> infer_instance

/-- Between `d` and `d'` a call on `r` went through. -/
structure InternalCall.Settles (c : InternalCall) (d : Db) (r : Reservation) (d' : Db) : Prop where
  reservations : d'.reservations = d.reservations.set { r with status := c.status }
  stock : stock d' r.productId = stock d r.productId +
    if c.status ≠ .completed ∧ (d.products.get r.productId).isSome then r.qtyReserved else 0
  pending : ∀ env id, c = .release env id → r.status = .pending

abbrev InternalDone := Done Db Failure Unit InternalCall

/-! ## What the functions write -/

/-- The writes of `if product: product.qty_available += reservation.qty_reserved`. -/
def returnWrites (env : Env) (d : Db) (r : Reservation) : List Write :=
  match d.products.get r.productId with
  | some p => [.setStock p.id (p.qtyAvailable.val + r.qtyReserved) env.now]
  | none => []

section
variable {env : Env} {d d' : Db} {fs : List Bool} {ws : List Write} {s : Session} {r : Reservation}
  {id orderId : Uuid}

/-- The found reservation is the one with the id. -/
theorem attempt_selectReservation {α : Type} {f : Reservation → Tx α}
    {Q : α → Db → List Write → Session → Prop} (hr : d.reservations.get id = some r)
    (h : ∀ fs', (advance store (f r) fs' d ws s).Attempt d Q) :
    (advance store (do
      let reservation ← orNotFound (← selectReservationForUpdate id fun _ => true)
      f reservation) fs d ws s).Attempt d Q := by
  apply attempt_selectForUpdate
  intro fs'
  rw [hr]
  exact h fs'

/-- The found reservation is the only one with the order. -/
theorem attempt_selectReservationByOrder {α : Type} {f : Reservation → Tx α}
    {Q : α → Db → List Write → Session → Prop}
    (honly : ∀ x ∈ d.reservations.rows, x.orderId = some orderId → x = r)
    (h : ∀ fs', (advance store (f r) fs' d ws s).Attempt d Q) :
    (advance store (do
      let reservation ← orNotFound (← selectReservationByOrderForUpdate orderId)
      f reservation) fs d ws s).Attempt d Q := by
  change (advance store (.lock _ fun x => _) fs d ws s).Attempt d Q
  rw [advance]
  split
  · exact attempt_fail
  · change (advance store ((scalarOneOrNone (d.reservations.rows.filter fun r =>
      r.orderId = some orderId)).bind _) _ d ws s).Attempt d Q
    cases hfound : d.reservations.rows.filter fun r => r.orderId = some orderId with
    | nil => exact attempt_fail
    | cons x rest =>
        cases rest with
        | nil =>
            have hx : x ∈ d.reservations.rows.filter fun r => r.orderId = some orderId := by
              rw [hfound]
              exact List.mem_singleton_self x
            obtain ⟨hmem, hlink⟩ := List.mem_filter.mp hx
            obtain rfl := honly x hmem (of_decide_eq_true hlink)
            exact h _
        | cons y rest => exact attempt_fail

/-- Lock the product, and leave the writes of a cancellation pending. -/
theorem attempt_returnStock {Q : Unit → Db → List Write → Session → Prop}
    (h : Q () d (ws ++ returnWrites env d r ++ [.setReservationStatus r.id .cancelled]) s) :
    (advance store (do
      let product ← selectProductForUpdate r.productId
      returnStock env r product
      Prog.save (.setReservationStatus r.id .cancelled)) fs d ws s).Attempt d Q := by
  apply attempt_selectForUpdate
  intro fs'
  unfold returnWrites at h
  cases hp : d.products.get r.productId with
  | none =>
      rw [hp, List.append_nil] at h
      exact h
  | some p =>
      rw [hp] at h
      exact h

/-! ## What a call leaves -/

theorem applyAll_returnWrites (h : store.applyAll (returnWrites env d r) d = .ok d') :
    d'.reservations = d.reservations ∧ stock d' r.productId = stock d r.productId +
      if (d.products.get r.productId).isSome then r.qtyReserved else 0 := by
  unfold returnWrites at h
  cases hp : d.products.get r.productId with
  | none =>
      rw [hp] at h
      obtain rfl := Store.applyAll_nil.mp h
      simp
  | some p =>
      rw [hp] at h
      have hpid : p.id = r.productId := Table.key_of_get hp
      obtain ⟨p', q, hp', hq, rfl⟩ := apply_setStock.mp (Store.applyAll_singleton ▸ h)
      obtain rfl : p = p' := Option.some.inj (hp.symm.trans (hpid ▸ hp'))
      refine ⟨rfl, ?_⟩
      have hshift := stock_shift hp hq r.productId (e := { d with
        products := d.products.set { p with qtyAvailable := q, updatedAt := env.now } }) rfl
      rw [if_pos rfl] at hshift
      exact hshift

theorem applyAll_cancelOrder (h : store.applyAll (cancelWrites env r) d = .ok d') :
    d'.reservations = d.reservations ∧ d'.products = d.products := by
  unfold cancelWrites at h
  split at h
  · obtain ⟨o, ho, rfl⟩ := apply_setOrderStatus.mp (Store.applyAll_singleton ▸ h)
    exact ⟨rfl, rfl⟩
  · obtain rfl := Store.applyAll_nil.mp h
    exact ⟨rfl, rfl⟩

theorem applyAll_status {status : OrderStatus} (hr : d.reservations.get r.id = some r)
    (h : store.applyAll [.setReservationStatus r.id status] d = .ok d') :
    d'.reservations = d.reservations.set { r with status := status } ∧ d'.products = d.products := by
  obtain ⟨r', hr', rfl⟩ := apply_setReservationStatus.mp (Store.applyAll_singleton ▸ h)
  obtain rfl : r = r' := Option.some.inj (hr.symm.trans hr')
  exact ⟨rfl, rfl⟩

theorem stock_congr (h : d'.products = d.products) (p : Uuid) : stock d' p = stock d p := by
  unfold stock
  rw [h]

/-- Units returned and a status written make a call that went through. -/
theorem settles_of_return {c : InternalCall} {d₁ : Db} (hr : d.reservations.get r.id = some r)
    (hc : c.status ≠ .completed) (hpending : ∀ env id, c = .release env id → r.status = .pending)
    (h : store.applyAll (returnWrites env d r ++ [.setReservationStatus r.id c.status]) d =
      .ok d₁) (hreservations : d'.reservations = d₁.reservations)
    (hproducts : d'.products = d₁.products) : c.Settles d r d' := by
  obtain ⟨d₂, hreturn, hstatus⟩ := Store.applyAll_append.mp h
  obtain ⟨hkept, hstock⟩ := applyAll_returnWrites hreturn
  obtain ⟨hset, hsame⟩ := applyAll_status (hkept ▸ hr) hstatus
  refine ⟨by rw [hreservations, hset, hkept], ?_, hpending⟩
  rw [stock_congr hproducts, stock_congr hsame, hstock]
  simp [hc]

theorem settles_of_completion {c : InternalCall} (hr : d.reservations.get r.id = some r)
    (hc : c.status = .completed) (hpending : ∀ env id, c = .release env id → r.status = .pending)
    (h : store.applyAll [.setReservationStatus r.id .completed] d = .ok d') : c.Settles d r d' := by
  obtain ⟨hset, hsame⟩ := applyAll_status hr h
  refine ⟨by rw [hset, hc], ?_, hpending⟩
  rw [stock_congr hsame]
  simp [hc]

/-- **A call** of the internal API settles its reservation, or it fails and
nothing is committed. -/
theorem attempt_internalCall {c : InternalCall} (hr : d.reservations.get r.id = some r)
    (hon : c.On d r.id) (hc : ∀ env id, c ≠ .release env id) :
    (advance store c.program fs d [] .fresh).Attempt d fun _ d' _ _ => c.Settles d r d' := by
  have honly : ∀ orderId, (∀ x ∈ d.reservations.rows, x.orderId = some orderId → x.id = r.id) →
      ∀ x ∈ d.reservations.rows, x.orderId = some orderId → x = r :=
    fun orderId hid x hx hlink => d.reservations.eq_of_key hx (Table.mem_of_get hr) (hid x hx hlink)
  -- what a function has left pending is committed
  have hcommit : ∀ {ws}, (∀ d', store.applyAll ws d = .ok d' → c.Settles d r d') →
      ∀ {x : Tx Unit}, (advance store x fs d [] .fresh).Attempt d
        (fun _ d' ws' s' => d = d' ∧ ws = ws' ∧ Session.fresh = s') →
          (advance store (x >>= fun _ => Prog.commitWork) fs d [] .fresh).Attempt d
            fun _ d' _ _ => c.Settles d r d' := by
    intro ws hsettles x hx
    apply attempt_bind hx
    rintro _ fs' _ _ _ ⟨rfl, rfl, rfl⟩
    exact attempt_lastCommit hsettles
  have hnever : ∀ env id, c = .release env id → r.status = .pending :=
    fun env id hrelease => absurd hrelease (hc env id)
  cases c with
  | markCompleted id =>
      obtain rfl : id = r.id := hon
      apply hcommit fun d' happly => settles_of_completion hr rfl hnever happly
      exact attempt_selectReservation hr fun fs' => ⟨rfl, rfl, rfl⟩
  | markCompletedByOrder orderId =>
      apply hcommit fun d' happly => settles_of_completion hr rfl hnever happly
      exact attempt_selectReservationByOrder (honly orderId hon) fun fs' => ⟨rfl, rfl, rfl⟩
  | cancel env id =>
      obtain rfl : id = r.id := hon
      apply hcommit fun d' happly =>
        settles_of_return hr (by simp [InternalCall.status]) hnever happly rfl rfl
      exact attempt_selectReservation hr fun fs' => attempt_returnStock ⟨rfl, rfl, rfl⟩
  | cancelByOrder env orderId =>
      apply hcommit fun d' happly =>
        settles_of_return hr (by simp [InternalCall.status]) hnever happly rfl rfl
      exact attempt_selectReservationByOrder (honly orderId hon) fun fs' =>
        attempt_returnStock ⟨rfl, rfl, rfl⟩
  | release env id => exact absurd rfl (hc env id)

/-- An iteration settles its reservation if that is pending, or it leaves no trace. -/
theorem attempt_release (env : Env) (fs : List Bool) (hr : d.reservations.get r.id = some r) :
    (advance store (releaseReservation env workerExpireOnCommit r.id) fs d [] .fresh).Attempt d
      fun _ d' _ _ => d' = d ∨ (InternalCall.release env r.id).Settles d r d' := by
  apply attempt_selectForUpdate
  intro fs₁
  rw [hr]
  simp only [Option.filter_some, if_true]
  by_cases hstatus : r.status = .pending
  · rw [if_neg (not_not.mpr hstatus)]
    -- the product may be gone; what is committed is the same in its shape
    have hrest : ∀ fs' s', (advance store (do
        Prog.save (.setReservationStatus r.id .expired)
        cancelLinkedOrder env r
        commitInSession workerExpireOnCommit) fs' d (returnWrites env d r) s').Attempt d
          fun _ d' _ _ => d' = d ∨ (InternalCall.release env r.id).Settles d r d' := by
      intro fs' s'
      change (advance store (cancelLinkedOrder env r >>= fun _ =>
        commitInSession workerExpireOnCommit) fs' d (returnWrites env d r ++ _) s').Attempt d _
      apply attempt_bind attempt_cancelLinkedOrder
      rintro _ fs₂ _ _ _ ⟨rfl, rfl, rfl⟩
      apply attempt_commitWork
      intro d' fs₃ happly
      obtain ⟨d₁, hreturn, hcancel⟩ := Store.applyAll_append.mp happly
      obtain ⟨hreservations, hproducts⟩ := applyAll_cancelOrder hcancel
      exact attempt_pure (.inr (settles_of_return hr (by simp [InternalCall.status])
        (fun _ _ _ => hstatus) hreturn hreservations hproducts))
    apply attempt_selectForUpdate
    intro fs₂
    unfold returnWrites at hrest
    cases hp : d.products.get r.productId with
    | none =>
        rw [hp] at hrest
        exact hrest fs₂ _
    | some p =>
        rw [hp] at hrest
        exact hrest fs₂ _
  · rw [if_pos hstatus]
    exact attempt_pure (.inl rfl)

/-- An iteration leaves what its body leaves. -/
theorem perform_release (hr : d.reservations.get r.id = some r) (faults : List Bool) :
    let x := perform store InternalCall.program .fresh d (.release env r.id) faults
    x.after = d ∨ (InternalCall.release env r.id).Settles d r x.after := by
  intro x
  obtain ⟨fs', d', ws', s', hadvance, hcases⟩ :=
    attempt_recover Session.fresh (attempt_release env faults hr)
  have hafter : x.after = d' := by
    change (exec store (releaseIteration env workerExpireOnCommit r.id) faults d [] .fresh).db = d'
    unfold releaseIteration
    rw [exec_eq_advance.2, hadvance]
  rw [hafter]
  cases hcases with
  | inl hok =>
      obtain ⟨-, -, hleft⟩ := hok
      exact hleft
  | inr hfail => exact .inl hfail.2.1

/-- A function that has answered has settled its reservation; one that failed has changed
nothing. -/
theorem perform_function {c : InternalCall} (hr : d.reservations.get r.id = some r)
    (hon : c.On d r.id) (hc : ∀ env id, c ≠ .release env id) (faults : List Bool) :
    let x := perform store InternalCall.program .fresh d c faults
    (x.answer = .ok () ∧ c.Settles d r x.after) ∨ ((∃ e, x.answer = .error e) ∧ x.after = d) := by
  intro x
  have hvalue : x.answer = (advance store c.program faults d [] .fresh).value := exec_eq_advance.1
  have hdb : x.after = (advance store c.program faults d [] .fresh).db := exec_eq_advance.2
  rw [hvalue, hdb]
  cases (attempt_internalCall hr hon hc).cases with
  | inl hok =>
      obtain ⟨⟨⟩, hvalue, hsettles⟩ := hok
      exact .inl ⟨hvalue, hsettles⟩
  | inr hfail => exact .inr hfail

/-- **Each call** settles its reservation or changes nothing, whatever fails. -/
theorem perform_internalCall {c : InternalCall} (hr : d.reservations.get r.id = some r)
    (hon : c.On d r.id) (faults : List Bool) :
    let x := perform store InternalCall.program .fresh d c faults
    x.after = d ∨ c.Settles d r x.after := by
  intro x
  cases c with
  | release env id =>
      obtain rfl : id = r.id := hon
      exact perform_release hr faults
  | _ =>
      cases perform_function hr hon (fun _ _ h => by cases h) faults with
      | inl hok => exact .inr hok.2
      | inr hfail => exact .inl hfail.2

end

/-! ## Runs -/

/-- The call has added units to the product of `r`. -/
def InternalCall.addsUnits (r : Reservation) (x : InternalDone) : Bool :=
  stock x.after r.productId ≠ stock x.before r.productId

/-- What the calls on `r` may do together. -/
structure ReturnedOnce (r : Reservation) (calls : List InternalDone) : Prop where
  added : ∀ x ∈ calls, InternalCall.addsUnits r x →
    stock x.after r.productId = stock x.before r.productId + r.qtyReserved
  once : calls.countP (InternalCall.addsUnits r) ≤ 1
  completed : ∀ x ∈ calls, ∀ r', x.before.reservations.get r.id = some r' →
    r'.status = .completed → InternalCall.addsUnits r x = false
  kept : ∀ x ∈ calls, ∀ r', x.before.reservations.get r.id = some r' → r'.settled →
    ∃ r'', x.after.reservations.get r.id = some r'' ∧ r''.status = r'.status

/-- A call on the reservation `id`. -/
def OnReservation (id : Uuid) (d : Db) (c : InternalCall) (_ : List Bool) : Prop := c.On d id

instance (id : Uuid) (d : Db) (c : InternalCall) (faults : List Bool) :
    Decidable (OnReservation id d c faults) :=
  inferInstanceAs (Decidable (c.On d id))

/-- A call on the reservation `id` whose caller has looked at its status. -/
def GuardedOn (id : Uuid) (d : Db) (c : InternalCall) (_ : List Bool) : Prop :=
  c.On d id ∧ ∀ r ∈ d.reservations.get id, c.Guarded r

instance (id : Uuid) (d : Db) (c : InternalCall) (faults : List Bool) :
    Decidable (GuardedOn id d c faults) :=
  inferInstanceAs (Decidable (_ ∧ _))

section
variable {r : Reservation} {d₀ d : Db} {calls : List InternalDone}

/-- What a guarded call does to the reservation that `r` has become. -/
structure GuardedStep (r r' : Reservation) (x : InternalDone) : Prop where
  same : ∃ s, r' = { r with status := s }
  after : x.after.reservations.get r.id = some r'
  kept : r.settled → r'.status = r.status
  adds : InternalCall.addsUnits r x → r.settled = false ∧ r'.settled ∧
    stock x.after r.productId = stock x.before r.productId + r.qtyReserved

theorem Reservation.settled_of_completed (h : r.status = .completed) : r.settled := by
  simp [settled, h]

theorem Reservation.settled_of_released (h : r.released) : r.settled := by
  simp [settled, h]

/-- A guarded call finds its reservation open, or completes it once more. -/
theorem InternalCall.Settles.open_or_completed {c : InternalCall} {d' : Db} (h : c.Settles d r d')
    (hguard : c.Guarded r) : r.settled = false ∨ r.status = .completed ∧ c.status = .completed := by
  cases c with
  | markCompleted | markCompletedByOrder =>
      cases hcompleted : decide (r.status = .completed) with
      | true => exact .inr ⟨of_decide_eq_true hcompleted, rfl⟩
      | false =>
          left
          have hheld : r.released = false := hguard
          simp [Reservation.settled, hheld, of_decide_eq_false hcompleted]
  | cancel | cancelByOrder => exact .inl hguard
  | release env id =>
      left
      simp [Reservation.settled, Reservation.released, h.pending env id rfl]

theorem guardedStep {c : InternalCall} {faults : List Bool}
    (hr : d.reservations.get r.id = some r) (hguarded : GuardedOn r.id d c faults) :
    ∃ r', GuardedStep r r' (perform store InternalCall.program .fresh d c faults) := by
  obtain ⟨hon, hguard⟩ := hguarded
  cases perform_internalCall hr hon faults with
  | inl hnothing =>
      refine ⟨r, ⟨r.status, rfl⟩, ?_, fun _ => rfl, fun hadds => ?_⟩
      · rw [hnothing]
        exact hr
      · have hsame : stock d r.productId = stock d r.productId := rfl
        exact absurd (hnothing.symm ▸ hsame) (of_decide_eq_true hadds)
  | inr hsettles =>
      have hcases := hsettles.open_or_completed (hguard r hr)
      have hstock := hsettles.stock
      refine ⟨{ r with status := c.status }, ⟨_, rfl⟩, ?_, fun hsettled => ?_, fun hadds => ?_⟩
      · rw [hsettles.reservations]
        exact Table.get_set_self (x := r) hr
      · rcases hcases with hopen | ⟨hcompleted, hagain⟩
        · rw [hopen] at hsettled
          contradiction
        · exact hagain.trans hcompleted.symm
      · split at hstock
        · next hreturns =>
            refine ⟨hcases.resolve_right fun h => hreturns.1 h.2, ?_, hstock⟩
            cases c <;> rfl
        · exact absurd (hstock.trans (add_zero _)) (of_decide_eq_true hadds)

/-- In every state of a run `r` has only changed its status, and units have come back
once, and only if it is settled. -/
theorem guarded_run (hr : d₀.reservations.get r.id = some r)
    (hrun : Serial store InternalCall.program .fresh (GuardedOn r.id) d₀ calls d) :
    ∃ s, d.reservations.get r.id = some { r with status := s } ∧
      calls.countP (InternalCall.addsUnits r) ≤
        ({ r with status := s } : Reservation).settled.toNat ∧
      ∀ x ∈ calls, ∃ s r', x.before.reservations.get r.id = some { r with status := s } ∧
        GuardedStep { r with status := s } r' x := by
  induction hrun with
  | nil => exact ⟨r.status, hr, Nat.zero_le _, by simp⟩
  | @snoc calls d c faults hrun hguarded ih =>
      obtain ⟨s, hget, hcount, hcalls⟩ := ih
      obtain ⟨r', hstep⟩ := guardedStep (r := { r with status := s }) hget hguarded
      obtain ⟨s', rfl⟩ := hstep.same
      refine ⟨s', hstep.after, ?_, fun x hx => ?_⟩
      · rw [List.countP_append, List.countP_singleton]
        split
        · next hadds =>
            obtain ⟨hopen, hsettled, -⟩ := hstep.adds hadds
            rw [hopen] at hcount
            rw [hsettled]
            exact Nat.add_le_add_right hcount 1
        · cases hsettled : ({ r with status := s } : Reservation).settled with
          | false =>
              rw [hsettled] at hcount
              exact (Nat.le_zero.mp hcount).symm ▸ Nat.zero_le _
          | true =>
              obtain rfl : s' = s := hstep.kept hsettled
              rw [hsettled] at hcount ⊢
              exact hcount
      · cases List.mem_append.mp hx with
        | inl hx => exact hcalls x hx
        | inr hx =>
            obtain rfl := List.mem_singleton.mp hx
            exact ⟨s, _, hget, hstep⟩

/-- A call that went through unguarded. -/
def Breaks (r : Reservation) (x : InternalDone) : Prop :=
  r.settled ∧ (stock x.after r.productId = stock x.before r.productId + r.qtyReserved ∨
    ∃ r', x.after.reservations.get r.id = some r' ∧ r'.status ≠ r.status)

theorem breaks_of_unguarded {c : InternalCall} {faults : List Bool}
    (hr : d.reservations.get r.id = some r) (hon : c.On d r.id) (hunguarded : ¬ c.Guarded r)
    (hproduct : (d.products.get r.productId).isSome)
    (hok : (perform store InternalCall.program .fresh d c faults).answer = .ok ()) :
    Breaks r (perform store InternalCall.program .fresh d c faults) := by
  have hc : ∀ env id, c ≠ .release env id := by
    rintro env id rfl
    exact hunguarded trivial
  have hsettles : c.Settles d r (perform store InternalCall.program .fresh d c faults).after := by
    cases perform_function hr hon hc faults with
    | inl h => exact h.2
    | inr h =>
        obtain ⟨⟨e, herror⟩, -⟩ := h
        rw [herror] at hok
        contradiction
  have hstock := hsettles.stock
  cases c with
  | markCompleted | markCompletedByOrder =>
      have hreleased : r.released := Bool.eq_true_of_not_eq_false hunguarded
      refine ⟨Reservation.settled_of_released hreleased,
        .inr ⟨{ r with status := .completed }, ?_, ?_⟩⟩
      · rw [hsettles.reservations]
        exact Table.get_set_self (x := r) hr
      · rintro hsame
        rw [Reservation.released, ← hsame] at hreleased
        contradiction
  | cancel | cancelByOrder =>
      refine ⟨Bool.eq_true_of_not_eq_false hunguarded, .inl ?_⟩
      rw [if_pos ⟨by simp [InternalCall.status], hproduct⟩] at hstock
      exact hstock
  | release env id => exact absurd rfl (hc env id)

/-- **Units come back once**, if the callers look at the status first: in a run of guarded
calls on a reservation its units are added at most once, never after its completion, and
it keeps the status it has settled on.  A call that is not guarded adds the units of a
settled reservation or moves it to another status, if it goes through at all. -/
theorem returned_once (hr : d₀.reservations.get r.id = some r)
    (hrun : Serial store InternalCall.program .fresh (GuardedOn r.id) d₀ calls d) :
    ReturnedOnce r calls ∧
      ∀ c faults r', c.On d r.id → d.reservations.get r.id = some r' → ¬ c.Guarded r' →
        (d.products.get r.productId).isSome →
        (perform store InternalCall.program .fresh d c faults).answer = .ok () →
          Breaks r' (perform store InternalCall.program .fresh d c faults) := by
  obtain ⟨s, hget, hcount, hcalls⟩ := guarded_run hr hrun
  refine ⟨?_, fun c faults r' hon hget' hunguarded hproduct hok => ?_⟩
  · constructor
    case added =>
      intro x hx hadds
      obtain ⟨s, r', -, hstep⟩ := hcalls x hx
      exact (hstep.adds hadds).2.2
    case once => exact hcount.trans (Bool.toNat_le _)
    case completed =>
      intro x hx r' hget' hcompleted
      obtain ⟨s, r'', hbefore, hstep⟩ := hcalls x hx
      obtain rfl := Option.some.inj (hbefore.symm.trans hget')
      by_contra hadds
      have hopen := (hstep.adds (Bool.eq_true_of_not_eq_false hadds)).1
      rw [Reservation.settled_of_completed hcompleted] at hopen
      contradiction
    case kept =>
      intro x hx r' hget' hsettled
      obtain ⟨s, r'', hbefore, hstep⟩ := hcalls x hx
      obtain rfl := Option.some.inj (hbefore.symm.trans hget')
      exact ⟨r'', hstep.after, hstep.kept hsettled⟩
  · obtain rfl := Option.some.inj (hget.symm.trans hget')
    exact breaks_of_unguarded hget hon hunguarded hproduct hok

end

/-- Two lamps of ten are reserved. -/
def reservedLamps : Db := run .empty [
  (Call.createProduct seller.id lamp seller).at 0 0,
  (Call.reserveItems buyer.id "key" ⟨0, two⟩).at 1 1]

def lampsReservation : Reservation := newReservation (shopEnv 1 1) buyer.id "key" ⟨0, two⟩

/-- A cancellation and an iteration of the sweep after it. -/
theorem returned_once_lamps : ∃ calls d, Serial store InternalCall.program .fresh
    (GuardedOn lampsReservation.id) reservedLamps calls d ∧ stock d 0 = 10 ∧
      ReturnedOnce lampsReservation calls := by
  have hexec : (serially store InternalCall.program .fresh
      (fun d c faults => decide (GuardedOn lampsReservation.id d c faults)) reservedLamps
      [(.cancel (shopEnv 2 2) 1, []), (.release (shopEnv 3 3) 1, [])]).any
        (fun x => decide (stock x.2 0 = 10)) := by decide +kernel
  obtain ⟨calls, d, hrun, hend⟩ :=
    Serial.of_serially_any (fun _ _ _ h => of_decide_eq_true h) hexec
  have hr : reservedLamps.reservations.get lampsReservation.id = some lampsReservation := by
    decide +kernel
  exact ⟨calls, d, hrun, of_decide_eq_true hend, (returned_once hr hrun).1⟩

/-- Two cancellations return four lamps for two. -/
theorem not_returned_once : ¬ ∀ (d₀ d : Db) (r : Reservation) (calls : List InternalDone),
    d₀.reservations.get r.id = some r →
    Serial store InternalCall.program .fresh (OnReservation r.id) d₀ calls d →
      ReturnedOnce r calls := by
  intro hall
  have hexec : (serially store InternalCall.program .fresh
      (fun d c faults => decide (OnReservation lampsReservation.id d c faults)) reservedLamps
      [(.cancel (shopEnv 2 2) 1, []), (.cancel (shopEnv 3 3) 1, [])]).any
        (fun x => decide (1 < x.1.countP (InternalCall.addsUnits lampsReservation))) := by
    decide +kernel
  obtain ⟨calls, d, hrun, hend⟩ :=
    Serial.of_serially_any (fun _ _ _ h => of_decide_eq_true h) hexec
  have hr : reservedLamps.reservations.get lampsReservation.id = some lampsReservation := by
    decide +kernel
  exact absurd (hall reservedLamps d lampsReservation calls hr hrun).once
    (Nat.not_le.mpr (of_decide_eq_true hend))

end FairDrop
