import FairDrop.Coupling

/-!
# FairDrop.Obligations

What is asked of the service code, statement by statement:

* the rows it locks come in one order, orders before reservations before
  products (`Row.Below`);
* what it commits is the `Change` of its call;
* a call that ends in an error of its own has committed nothing (`Finished`).
-/

namespace FairDrop

open RowStore

/-! ## Lock order -/

/-- The order of the locks; `lt` orders the reservations among themselves. -/
inductive Row.Below (lt : Uuid → Uuid → Prop) : Row → Row → Prop
  | orderReservation (a b : Uuid) : Below lt (.order a) (.reservation b)
  | orderProduct (a b : Uuid) : Below lt (.order a) (.product b)
  | reservationProduct (a b : Uuid) : Below lt (.reservation a) (.product b)
  | reservations {a b : Uuid} : lt a b → Below lt (.reservation a) (.reservation b)

/-- Every row held is below the row asked for. -/
def Upward (lt : Uuid → Uuid → Prop) (held : List Row) (r : Row) : Prop :=
  ∀ h ∈ held, h.Below lt r

/-- The sweep asks for the order of the pending reservation it holds: the one
request that goes down. -/
def OwnOrder (held : List Row) (d : Db) (r : Row) : Prop :=
  ∃ res orderId, r = .order orderId ∧ .reservation res.id ∈ held ∧
    d.reservations.get res.id = some res ∧ res.status = .pending ∧ res.orderId = some orderId

theorem upward_nil (lt : Uuid → Uuid → Prop) (r : Row) : Upward lt [] r := by simp [Upward]

/-- A payment or a cancellation of `o` by a user who may make it. -/
def Call.settles (c : Call) (o : Order) : Prop :=
  match c with
  | .confirmOrderPayment orderId user | .cancelOrder orderId user =>
      o.id = orderId ∧ checkOwnership user o.owned = .ok ()
  | _ => False

instance (c : Call) (o : Order) : Decidable (c.settles o) := by
  unfold Call.settles
  split <;> infer_instance

/-- Whoever asks for a row with an order in hand is settling that order. -/
def HoldsSettled (settles : Order → Prop) (held : List Row) (d : Db) : Prop :=
  ∀ o, .order o.id ∈ held → d.orders.get o.id = some o → settles o

theorem holdsSettled_of_no_order {settles : Order → Prop} {held : List Row} {d : Db}
    (h : ∀ id, .order id ∉ held) : HoldsSettled settles held d :=
  fun o ho => absurd ho (h o.id)

/-! ## Rules of the calls -/

/-- The rules of a request: it assumes the coupling invariant and nothing about
its session, locks upwards, and commits its change. -/
def requestRules (lt : Uuid → Uuid → Prop) (env : Env) (c : Call) : Rules Session Db Row Write where
  inv := Coupled
  grant _ _ _ := True
  request held d r := Upward lt held r ∧ HoldsSettled c.settles held d
  commit alone _ d d' := Change env alone d c d'

/-- Nothing is held yet. -/
theorem requestRules_nil {lt : Uuid → Uuid → Prop} {env : Env} {c : Call} (d : Db) (r : Row) :
    (requestRules lt env c).request [] d r :=
  ⟨upward_nil lt r, holdsSettled_of_no_order (by simp)⟩

/-- How a call ends: after at most one commit, and without any if the error is
one of its own rather than a statement that did not go through. -/
def Finished {α : Type} (r : Except Failure α) (p : Known Session Db Row RowVal Write) : Prop :=
  p.commits ≤ 1 ∧ ∀ e, r = .error e → p.commits = 0 ∨ e = .operationalError ∨ e = .staleData

section
variable {α : Type} {p : Known Session Db Row RowVal Write}

theorem Finished.failed {e : Failure} (h : p.commits = 0) : Finished (.error e : Except _ α) p :=
  ⟨by omega, fun _ _ => .inl h⟩

theorem Finished.done {a : α} (h : p.commits ≤ 1) : Finished (.ok a) p :=
  ⟨h, fun _ he => by contradiction⟩

theorem Finished.stale (h : p.commits ≤ 1) : Finished (.error .staleData : Except _ α) p := by
  refine ⟨h, ?_⟩
  intro e he
  cases he
  exact .inr (.inr rfl)

theorem Finished.outage (h : p.commits ≤ 1) :
    Finished (.error .operationalError : Except _ α) p := by
  refine ⟨h, ?_⟩
  intro e he
  cases he
  exact .inr (.inl rfl)

end

end FairDrop
