import FairDrop.Actors
import FairDrop.Stock

/-!
# FairDrop.Outcomes

One terminal outcome per reservation, whatever interleaving of orders,
payments, cancellations and releases led to it.  No row lock is shared by all
four; what holds them together is that each commit is a `Change` between
coupled databases, and a settled row never moves again.
-/

namespace FairDrop

open RowStore

/-! ## What becomes of a reservation -/

/-- The status of a reservation, and that of its order if it has one. -/
def outcome (d : Db) (id : Uuid) : Option (OrderStatus × Option OrderStatus) :=
  (d.reservations.get id).map fun r => (r.status, (r.orderId.bind d.orders.get).map (·.status))

/-- The order that a reservation is linked to. -/
def linkedOrder (d : Db) (id : Uuid) : Option Uuid := (d.reservations.get id).bind (·.orderId)

/-- The outcomes other than waiting for a decision. -/
def terminalOutcomes : List (OrderStatus × Option OrderStatus) :=
  [(.completed, some .paid), (.cancelled, some .cancelled), (.expired, some .cancelled),
    (.expired, none)]

/-- Orders, payments, cancellations and releases: what is done to a reservation. -/
def Call.onReservation : Call → Bool
  | .createOrder _ _ | .confirmOrderPayment _ _ | .cancelOrder _ _ | .releaseReservation _ => true
  | _ => false

/-- Reservations and orders of `d` have only made row steps in `d'`. -/
structure RowsStep (d d' : Db) : Prop where
  reservation : ∀ id r, d.reservations.get id = some r →
    ∃ r', d'.reservations.get id = some r' ∧ r.Step r'
  order : ∀ id o, d.orders.get id = some o → ∃ o', d'.orders.get id = some o' ∧ o.Step o'

theorem RowsStep.refl (d : Db) : RowsStep d d :=
  ⟨fun _ r hr => ⟨r, hr, .refl r⟩, fun _ o ho => ⟨o, ho, .refl o⟩⟩

theorem RowsStep.trans {d₁ d₂ d₃ : Db} (h₁ : RowsStep d₁ d₂) (h₂ : RowsStep d₂ d₃) :
    RowsStep d₁ d₃ where
  reservation := fun id r hr => by
    obtain ⟨r₂, hr₂, hstep⟩ := h₁.reservation id r hr
    obtain ⟨r₃, hr₃, hstep'⟩ := h₂.reservation id r₂ hr₂
    exact ⟨r₃, hr₃, hstep.trans hstep'⟩
  order := fun id o ho => by
    obtain ⟨o₂, ho₂, hstep⟩ := h₁.order id o ho
    obtain ⟨o₃, ho₃, hstep'⟩ := h₂.order id o₂ ho₂
    exact ⟨o₃, ho₃, hstep.trans hstep'⟩

section
variable {d d' : Db} {env : Env} {alone : Bool} {c : Call} {id : Uuid}

theorem Change.rowsStep (h : Coupled d) (hc : Change env alone d c d') : RowsStep d d' :=
  ⟨fun _ _ hr => hc.reservation_step h hr, fun _ _ ho => hc.order_step h ho⟩

/-- The outcome of a settled reservation is terminal. -/
theorem outcome_terminal (h : Coupled d) {x : OrderStatus × Option OrderStatus}
    (hx : outcome d id = some x) (hsettled : x.1 ≠ .pending) : x ∈ terminalOutcomes := by
  obtain ⟨r, hr, rfl⟩ := Option.map_eq_some_iff.mp hx
  have hmem := Table.mem_of_get hr
  cases hlink : r.orderId with
  | none =>
      cases h.unlinked r hmem hlink with
      | inl hpending => exact absurd hpending hsettled
      | inr hexpired => simp [terminalOutcomes, hexpired]
  | some orderId =>
      obtain ⟨o, i, hid, horder⟩ := h.linked r hmem orderId hlink
      have hget : d.orders.get orderId = some o := hid ▸ horder.stored
      have hpair := horder.status
      simp only [Option.bind_some, hget, Option.map_some]
      generalize r.status = s at hpair hsettled
      generalize o.status = s' at hpair
      cases hpair <;> simp_all [terminalOutcomes]

/-- A settled reservation keeps its outcome. -/
theorem RowsStep.outcome (h : RowsStep d d') (hd : Coupled d)
    {x : OrderStatus × Option OrderStatus} (hx : outcome d id = some x) (hsettled : x.1 ≠ .pending) :
    FairDrop.outcome d' id = some x := by
  obtain ⟨r, hr, rfl⟩ := Option.map_eq_some_iff.mp hx
  obtain ⟨r', hr', hrow⟩ := h.reservation id r hr
  have hsame : r' = r := hrow.settled hsettled
  subst hsame
  rw [FairDrop.outcome, hr', Option.map_some]
  cases hlink : r'.orderId with
  | none => rfl
  | some orderId =>
      obtain ⟨o, i, hid, horder⟩ := hd.linked r' (Table.mem_of_get hr) orderId hlink
      have hget : d.orders.get orderId = some o := hid ▸ horder.stored
      obtain ⟨o', ho', hstep⟩ := h.order orderId o hget
      have hdone : o.status ≠ .pending := by
        intro hpending
        exact hsettled (StatusPair.of_pending_order (hpending ▸ horder.status))
      have hkept : o' = o := hstep.settled hdone
      simp [hget, ho', hkept]

/-- A reservation keeps its link. -/
theorem RowsStep.linkedOrder (h : RowsStep d d') {a : Uuid} (ha : linkedOrder d id = some a) :
    FairDrop.linkedOrder d' id = some a := by
  obtain ⟨r, hr, hlink⟩ := Option.bind_eq_some_iff.mp ha
  obtain ⟨r', hr', hrow⟩ := h.reservation id r hr
  rw [FairDrop.linkedOrder, hr', Option.bind_some]
  exact hrow.link a hlink

theorem isReleased_le_one (d : Db) (id : Uuid) : isReleased d id ≤ 1 := by
  unfold isReleased
  split
  · exact Bool.toNat_le _
  · omega

/-- Releasing a pending reservation returns its units. -/
theorem Restocks.returnsUnits {r : Reservation} {s : OrderStatus} (hr : d.reservations.get r.id = some r)
    (hpending : r.status = .pending) (hs : s = .cancelled ∨ s = .expired)
    (hstock : Restocks env d r d'.products)
    (hset : d'.reservations = d.reservations.set { r with status := s }) :
    FairDrop.returnsUnits d d' r.id := by
  have hnew : d'.reservations.get r.id = some { r with status := s } := by
    rw [hset]
    exact Table.get_set_self (x := r) hr
  have hshelf := hstock.stock r.productId
  rw [if_pos rfl] at hshelf
  have hreleased : ({ r with status := s } : Reservation).released := by
    simpa [Reservation.released] using hs
  simp [FairDrop.returnsUnits, hr, hnew, hreleased, Reservation.holds, hpending, hshelf]

/-- What is done to a reservation moves no stock, or returns its units and moves
nothing else. -/
theorem Change.stock_onReservation (h : Coupled d) (hc : Change env alone d c d')
    (hcall : c.onReservation) :
    (∀ p, stock d' p = stock d p) ∨ ∃ r, d.reservations.get r.id = some r ∧
      returnsUnits d d' r.id ∧
        ∀ p, stock d' p = stock d p + if r.productId = p then r.qtyReserved else 0 := by
  cases hc with
  | createProduct | updateProduct | reserveItems => contradiction
  | @moderate c m _ _ _ _ hm => cases c <;> contradiction
  | createOrder | confirmOrderPayment => exact .inl fun _ => rfl
  | cancelOrder o r products items hget howner hstatus hr hlink hstock =>
      have hoid : o.id = _ := Table.key_of_get hget
      have hpending := h.pending_of_order hr (hoid ▸ hget) (hoid ▸ hlink) hstatus
      have hres : d.reservations.get r.id = some r := Table.get_of_mem hr
      refine .inr ⟨r, hres, Restocks.returnsUnits hres hpending (.inl rfl) hstock rfl, ?_⟩
      exact Restocks.stock (e := { d with products := products }) hstock
  | releaseReservation r products orders hget hstatus hstock =>
      have hid : r.id = _ := Table.key_of_get hget
      have hres : d.reservations.get r.id = some r := hid ▸ hget
      refine .inr ⟨r, hres, Restocks.returnsUnits hres hstatus (.inr rfl) hstock rfl, ?_⟩
      exact Restocks.stock (e := { d with products := products }) hstock

end

/-! ## Runs -/

section
variable {T : Type} [DecidableEq T] {s : World T} {evs : List (Event Db Write T)}

/-- Requests side by side, single iterations of the sweep among them. -/
def World.requests (calls : T → Call × Env) : World T :=
  .start fun t => .request (calls t).1 (calls t).2

variable {calls : T → Call × Env}

/-- What an event of such a run is. -/
theorem requests_events (hrun : Run store Anything (World.requests calls) evs s) :
    ∀ ev ∈ evs, Coupled ev.before ∧ Coupled ev.after ∧ (ev.after = ev.before ∨
      Change (calls ev.txn).2 false ev.before (calls ev.txn).1 ev.after) := by
  obtain ⟨_, _, hlaw⟩ := World.tracks_any hrun
  intro ev hev
  obtain ⟨hbefore, hafter, _⟩ := hlaw ev hev
  exact ⟨hbefore, hafter, (hlaw ev hev).cases⟩

theorem requests_rowsStep (hrun : Run store Anything (World.requests calls) evs s) :
    ∀ ev ∈ evs, RowsStep ev.before s.db ∧ RowsStep ev.after s.db := by
  apply hrun.since RowsStep.refl fun _ _ _ => RowsStep.trans
  intro ev hev
  obtain ⟨hbefore, _, hsame | hchange⟩ := requests_events hrun ev hev
  · rw [hsame]
    exact .refl _
  · exact hchange.rowsStep hbefore

/-- **One outcome per reservation** in every interleaving: all states that show
it settled show the same terminal outcome, all links are to one order, a settled
reservation gets no new link, at most one commit returns the units, and what is
done to reservations moves no other stock. -/
theorem one_outcome (hrun : Run store Anything (World.requests calls) evs s) (id : Uuid) :
    (∀ ev ∈ evs, ∀ x, outcome ev.after id = some x → x.1 ≠ .pending → x ∈ terminalOutcomes ∧
      ∀ ev' ∈ evs, ∀ y, outcome ev'.after id = some y → y.1 ≠ .pending → y = x) ∧
    (∀ ev ∈ evs, ∀ ev' ∈ evs, ∀ a b, linkedOrder ev.after id = some a →
      linkedOrder ev'.after id = some b → b = a) ∧
    (∀ ev ∈ evs, ∀ x, outcome ev.before id = some x → x.1 ≠ .pending →
      linkedOrder ev.after id = linkedOrder ev.before id) ∧
    (evs.countP fun ev => returnsUnits ev.before ev.after id) ≤ 1 ∧
    ∀ ev ∈ evs, (calls ev.txn).1.onReservation → (∀ p, stock ev.after p = stock ev.before p) ∨
      ∃ r, ev.before.reservations.get r.id = some r ∧ returnsUnits ev.before ev.after r.id ∧
        ∀ p, stock ev.after p = stock ev.before p +
          if r.productId = p then r.qtyReserved else 0 := by
  have hevents := requests_events hrun
  have hrows := requests_rowsStep hrun
  refine ⟨?_, ?_, ?_, ?_, ?_⟩
  · intro ev hev x hx hsettled
    have hcoupled := (hevents ev hev).2.1
    refine ⟨outcome_terminal hcoupled hx hsettled, fun ev' hev' y hy hsettled' => ?_⟩
    -- both are the outcome at the end
    have hend := (hrows ev hev).2.outcome hcoupled hx hsettled
    have hend' := (hrows ev' hev').2.outcome (hevents ev' hev').2.1 hy hsettled'
    exact Option.some.inj (hend'.symm.trans hend)
  · intro ev hev ev' hev' a b ha hb
    have hend := (hrows ev hev).2.linkedOrder ha
    have hend' := (hrows ev' hev').2.linkedOrder hb
    exact Option.some.inj (hend'.symm.trans hend)
  · intro ev hev x hx hsettled
    obtain ⟨r, hr, rfl⟩ := Option.map_eq_some_iff.mp hx
    obtain ⟨hbefore, _, hsame | hchange⟩ := hevents ev hev
    · rw [hsame]
    · obtain ⟨r', hr', hrow⟩ := hchange.reservation_step hbefore hr
      rw [linkedOrder, linkedOrder, hr', hr, hrow.settled hsettled]
  · have hcount : ∀ ev ∈ evs, isReleased ev.after id =
        isReleased ev.before id + (returnsUnits ev.before ev.after id).toNat :=
      fun ev hev => isReleased_step (hevents ev hev).1 (hevents ev hev).2.2 id
    apply hrun.countP_le_one (f := fun d => isReleased d id = 1)
    · intro ev hev hbefore
      have hstep := hcount ev hev
      have hle := isReleased_le_one ev.after id
      simp only [decide_eq_true_eq] at hbefore ⊢
      omega
    · intro ev hev hreturns
      have hstep := hcount ev hev
      have hle := isReleased_le_one ev.after id
      rw [hreturns] at hstep
      simp only [Bool.toNat_true, decide_eq_false_iff_not, decide_eq_true_eq] at hstep ⊢
      omega
  · intro ev hev hcall
    obtain ⟨hbefore, _, hsame | hchange⟩ := hevents ev hev
    · exact .inl fun p => by rw [hsame]
    · exact hchange.stock_onReservation hbefore hcall

end

/-- A cancellation against the release of the same reservation: they wait for
each other, the release is rolled back, and the cancellation goes through. -/
def rivalCalls : Fin 5 → Call × Env
  | 0 => (.createProduct seller.id lamp seller, shopEnv 0 0)
  | 1 => (.reserveItems buyer.id "key" ⟨0, two⟩, shopEnv 1 0)
  | 2 => (.createOrder buyer ⟨0, none⟩, shopEnv 2 0)
  | 3 => (.cancelOrder 0 buyer, shopEnv (reserveEnd + 2) 0)
  | 4 => (.releaseReservation 0, shopEnv (reserveEnd + 2) 0)

theorem one_outcome_rivals : ∃ evs s, Run store Anything (World.requests rivalCalls) evs s ∧
    (∃ ev ∈ evs, outcome ev.after 0 = some (.cancelled, some .cancelled)) ∧
      (evs.countP fun ev => returnsUnits ev.before ev.after 0) ≤ 1 := by
  have hexec : ((World.requests rivalCalls).exec store (fun _ _ => true)
      (turns [(0, 6), (1, 6), (2, 9), (3, 4), (4, 6)] ++ (4, true) :: turns [(4, 3), (3, 6)])).any
        (fun x => x.1.any fun ev =>
          decide (outcome ev.after 0 = some (.cancelled, some .cancelled))) := by decide +kernel
  obtain ⟨evs, s, hrun, hend⟩ := Run.of_exec_any (fun _ _ _ => trivial) hexec
  obtain ⟨ev, hev, hend⟩ := List.any_eq_true.mp hend
  obtain ⟨_, _, _, honce, _⟩ := one_outcome hrun 0
  exact ⟨evs, s, hrun, ⟨ev, hev, of_decide_eq_true hend⟩, honce⟩

end FairDrop
