import FairDrop.Lifecycle

/-!
# FairDrop.Stock

Conservation of stock: the units on the shelf and the units held by
reservations are together the units supplied, where a product is supplied when
it is created and whenever its seller sets the quantity.  No operation checks
this; each moves units between a product row and a reservation.
-/

namespace FairDrop

open RowStore

/-! ## Units -/

/-- The units of a pending reservation are held, those of a completed one sold. -/
def Reservation.holds (r : Reservation) : Bool := r.status = .pending ∨ r.status = .completed

def Reservation.released (r : Reservation) : Bool := r.status = .cancelled ∨ r.status = .expired

/-- Units on the shelf; none for a product that does not exist. -/
def stock (d : Db) (p : Uuid) : Int :=
  match d.products.get p with
  | some x => x.qtyAvailable.val
  | none => 0

/-- Units of `p` that a reservation holds. -/
def unitsOf (p : Uuid) (r : Reservation) : Int := if r.productId = p ∧ r.holds then r.qtyReserved else 0

/-- Units of `p` held or sold. -/
def heldUnits (d : Db) (p : Uuid) : Int := d.reservations.sum (unitsOf p)

/-- Units of `p` that a request supplies when it runs on `d`: the quantity a
product is created with, or the difference that an edit of the quantity makes.
A request that commits nothing supplies nothing. -/
def supply (d : Db) (q : Request) (p : Uuid) : Int :=
  if (q.perform d).commits.isEmpty then 0
  else match q.call with
    | .createProduct _ data _ => if q.env.uuid 0 = p then data.qtyAvailable.val else 0
    | .updateProduct id data _ => match data.qtyAvailable with
      | some (some n) => if id = p then n.val - stock d p else 0
      | some none | none => 0
    | _ => 0

/-- Units of `p` that a run supplies. -/
def supplied (d : Db) : List Request → Uuid → Int
  | [], _ => 0
  | q :: qs, p => supply d q p + supplied (step d q) qs p

/-- Between `d` and `d'` the reservation `id` let go of its units and they went
back to the shelf. -/
def returnsUnits (d d' : Db) (id : Uuid) : Bool :=
  match d.reservations.get id, d'.reservations.get id with
  | some r, some r' =>
      r.holds && r'.released && stock d' r.productId == stock d r.productId + r.qtyReserved
  | _, _ => false

/-- How many requests of a run returned the units of a reservation. -/
def returnCount (d : Db) : List Request → Uuid → Nat
  | [], _ => 0
  | q :: qs, id => (returnsUnits d (step d q) id).toNat + returnCount (step d q) qs id

section
variable {d d' : Db} {env : Env} {alone : Bool} {c : Call}

theorem stock_nonneg (d : Db) (p : Uuid) : 0 ≤ stock d p := by
  unfold stock
  split
  · next x _ => exact x.qtyAvailable.property.1
  · exact le_refl 0

theorem stock_of_get {p : Uuid} {x : Product} (h : d.products.get p = some x) :
    stock d p = x.qtyAvailable.val := by
  rw [stock, h]

/-! ## Stock and holdings after a write -/

theorem stock_set {x y : Product} {id : Uuid} (hx : d.products.get id = some x)
    (hid : y.id = id) (p : Uuid) {e : Db} (hd : e.products = d.products.set y) :
    stock e p = if id = p then y.qtyAvailable.val else stock d p := by
  rw [stock, hd, Table.get_set_of_key hx hid]
  by_cases hp : id = p
  · rw [if_pos hp, if_pos hp]
  · rw [if_neg hp, if_neg hp, stock]

theorem holds_not_released (r : Reservation) (h : r.holds) : r.released = false := by
  simp only [Reservation.holds, decide_eq_true_eq] at h
  rcases h with h | h <;> simp [Reservation.released, h]

/-- Releasing a held reservation takes its units out of the holdings. -/
theorem heldUnits_release {r : Reservation} {s : OrderStatus} (hr : d.reservations.get r.id = some r)
    (hholds : r.holds) (hs : ({ r with status := s } : Reservation).holds = false) (p : Uuid)
    {e : Db} (hd : e.reservations = d.reservations.set { r with status := s }) :
    heldUnits e p = heldUnits d p - if r.productId = p then r.qtyReserved else 0 := by
  have hsum := Table.sum_set (t := d.reservations) (r := { r with status := s }) hr (unitsOf p)
  rw [heldUnits, heldUnits, hd, hsum]
  have hold : unitsOf p r = if r.productId = p then r.qtyReserved else 0 := by
    simp [unitsOf, hholds]
  have hnew : unitsOf p { r with status := s } = 0 := by
    simp [unitsOf, hs]
  omega

/-- A change of a reservation that keeps its product, quantity and hold. -/
theorem heldUnits_keep {r s : Reservation} (hr : d.reservations.get r.id = some r)
    (hid : s.id = r.id) (p : Uuid) (hsame : unitsOf p s = unitsOf p r) {e : Db}
    (hd : e.reservations = d.reservations.set s) : heldUnits e p = heldUnits d p := by
  have hkey : Keyed.key s = r.id := hid
  have hsum := Table.sum_set (t := d.reservations) (hkey.symm ▸ hr) (unitsOf p)
  rw [heldUnits, heldUnits, hd, hsum]
  omega

/-- Moving `n` units onto the shelf, or off it. -/
theorem stock_shift {x : Product} {q : Stock} {n : Int} {id : Uuid} {now : Timestamp}
    (hx : d.products.get id = some x) (hq : q.val = x.qtyAvailable.val + n) (p : Uuid) {e : Db}
    (he : e.products = d.products.set { x with qtyAvailable := q, updatedAt := now }) :
    stock e p = stock d p + if id = p then n else 0 := by
  have hid : x.id = id := Table.key_of_get hx
  rw [stock_set hx (y := { x with qtyAvailable := q, updatedAt := now }) hid p he]
  by_cases hp : id = p
  · subst hp
    rw [if_pos rfl, if_pos rfl, stock_of_get hx, hq]
  · simp [hp]

/-- Restocking puts the units of the reservation on the shelf. -/
theorem Restocks.stock {r : Reservation} {e : Db} (h : Restocks env d r e.products) (p : Uuid) :
    FairDrop.stock e p = FairDrop.stock d p + if r.productId = p then r.qtyReserved else 0 := by
  obtain ⟨x, q, hx, hq, hset⟩ := h
  exact stock_shift hx hq p hset

/-- A new product comes with its units. -/
theorem stock_insert {x : Product} (hnew : d.products.get x.id = none) (p : Uuid) {e : Db}
    (he : e.products = d.products.insert x hnew) :
    stock e p = stock d p + if x.id = p then x.qtyAvailable.val else 0 := by
  have hget : e.products.get p = if x.id = p then some x else d.products.get p := by
    rw [he]
    exact Table.get_insert hnew p
  by_cases hp : x.id = p
  · rw [if_pos hp] at hget ⊢
    have hzero : stock d p = 0 := by rw [stock, ← hp, hnew]
    rw [stock_of_get hget, hzero]
    omega
  · rw [if_neg hp] at hget ⊢
    rw [stock, stock, hget]
    omega

/-- Restocking a reservation that lets go of its units. -/
theorem Restocks.conserves {r : Reservation} {s : OrderStatus} {e : Db}
    (h : Restocks env d r e.products) (hr : d.reservations.get r.id = some r) (hholds : r.holds)
    (hs : ({ r with status := s } : Reservation).holds = false)
    (he : e.reservations = d.reservations.set { r with status := s }) (p : Uuid) :
    FairDrop.stock e p + heldUnits e p = FairDrop.stock d p + heldUnits d p := by
  rw [h.stock p, heldUnits_release hr hholds hs p he]
  omega

/-- A reservation takes its units off the shelf. -/
theorem Change.stock_reserve {userId : Uuid} {key : String} {data : ReservationCreate}
    (hc : Change env alone d (.reserveItems userId key data) d') (p : Uuid) :
    stock d' p = stock d p - if data.productId = p then data.quantity.val else 0 := by
  cases hc with
  | moderate _ _ _ _ hm => contradiction
  | reserveItems x q hget hq hkey hnew =>
      have hshift := stock_shift (n := -data.quantity.val) hget (by omega) p (e := { d with
        products := d.products.set { x with qtyAvailable := q, updatedAt := env.now }
        reservations := d.reservations.insert (newReservation env userId key data) hnew }) rfl
      rw [hshift]
      split <;> omega

/-! ## One request -/

/-- Units that a committed change supplies. -/
def supplyOf (env : Env) (d : Db) (p : Uuid) : Call → Int
  | .createProduct _ data _ => if env.uuid 0 = p then data.qtyAvailable.val else 0
  | .updateProduct id data _ => match data.qtyAvailable with
    | some (some n) => if id = p then n.val - stock d p else 0
    | some none | none => 0
  | _ => 0

/-- An edit keeps the quantity of the product or sets it to a number. -/
theorem qtyAvailable_edited {x x' : Product} {data : ProductUpdate}
    (hs : ((ProductObj.load x).edit data).StoredAs x') :
    (data.qtyAvailable = none ∧ x'.qtyAvailable.val = x.qtyAvailable.val) ∨
      ∃ n, data.qtyAvailable = some (some n) ∧ x'.qtyAvailable.val = n.val := by
  have hqty := hs.qtyAvailable
  rw [ProductObj.qtyAvailable_edit] at hqty
  change (data.qtyAvailable.map (Option.map Subtype.val)).getD (some x.qtyAvailable.val) = _ at hqty
  cases hdata : data.qtyAvailable with
  | none =>
      rw [hdata] at hqty
      exact .inl ⟨rfl, (Option.some.inj hqty).symm⟩
  | some n =>
      cases n with
      | none =>
          rw [hdata] at hqty
          contradiction
      | some n =>
          rw [hdata] at hqty
          exact .inr ⟨n, rfl, (Option.some.inj hqty).symm⟩

/-- Every operation moves units without losing or making any but the supplied ones. -/
theorem Change.conserves (h : Coupled d) (hc : Change env alone d c d') (p : Uuid) :
    stock d' p + heldUnits d' p = stock d p + heldUnits d p + supplyOf env d p c := by
  cases hc with
  | @createProduct ownerId data user x entry hs hnew hlog =>
      have hid : x.id = env.uuid 0 := hs.id
      have hqty : x.qtyAvailable.val = data.qtyAvailable.val :=
        (Option.some.inj hs.qtyAvailable).symm
      have hstock := stock_insert hnew p (e := { d with
        products := d.products.insert x hnew
        auditLogs := d.auditLogs ++ entry.toList }) rfl
      rw [hstock, hid, hqty]
      change _ + heldUnits d p = _
      simp only [supplyOf]
      omega
  | @updateProduct id data user x x' old entry hget howner hfree hs =>
      have hid : x.id = id := Table.key_of_get hget
      have hid' : x'.id = id := by rw [hs.id, ProductObj.id_edit]; exact hid
      have hstock := stock_set hget hid' p (e := { d with
        products := d.products.set x'
        auditLogs := d.auditLogs ++ entry.toList }) rfl
      rw [hstock]
      change _ + heldUnits d p = _
      by_cases hp : id = p
      · subst hp
        rw [if_pos rfl, stock_of_get hget]
        cases qtyAvailable_edited hs with
        | inl hkept =>
            simp only [supplyOf, hkept]
            omega
        | inr hset =>
            obtain ⟨n, hset, hqty⟩ := hset
            simp only [supplyOf, hset, hqty, if_true, stock_of_get hget]
            omega
      · rw [if_neg hp]
        simp only [supplyOf, if_neg hp]
        split <;> omega
  | @moderate c m x x' old entry hmod hget howner hallowed hs =>
      have hid : x.id = m.productId := Table.key_of_get hget
      have hid' : x'.id = m.productId := hs.id.trans hid
      have hqty : x'.qtyAvailable.val = x.qtyAvailable.val :=
        (Option.some.inj hs.qtyAvailable).symm
      have hstock := stock_set hget hid' p (e := { d with
        products := d.products.set x'
        auditLogs := d.auditLogs ++ entry.toList }) rfl
      have hnone : supplyOf env d p c = 0 := by
        cases c <;> first | rfl | contradiction
      rw [hstock, hnone]
      change _ + heldUnits d p = _
      by_cases hp : m.productId = p
      · rw [if_pos hp, hqty, ← hp, stock_of_get hget]
        omega
      · rw [if_neg hp]
        omega
  | @reserveItems userId key data x q hget hq hkey hnew =>
      have hchange : Change env alone d (.reserveItems userId key data) _ :=
        .reserveItems x q hget hq hkey hnew
      rw [hchange.stock_reserve p]
      change _ + (d.reservations.insert (newReservation env userId key data) hnew).sum (unitsOf p) =
        stock d p + d.reservations.sum (unitsOf p) + 0
      rw [Table.sum_insert]
      have hunits : unitsOf p (newReservation env userId key data) =
          if data.productId = p then data.quantity.val else 0 := by
        simp [unitsOf, newReservation, Reservation.holds]
      omega
  | @createOrder user data r x o i stored hget howner hstatus =>
      have hid : r.id = data.reservationId := Table.key_of_get hget
      have hkeep := heldUnits_keep (r := r) (s := { r with orderId := some o.id }) (hid ▸ hget) rfl p rfl
        (e := { d with reservations := d.reservations.set { r with orderId := some o.id } }) rfl
      change stock d p + (d.reservations.set { r with orderId := some o.id }).sum (unitsOf p) =
        stock d p + heldUnits d p + 0
      change (d.reservations.set { r with orderId := some o.id }).sum (unitsOf p) = _ at hkeep
      rw [hkeep]
      omega
  | @confirmOrderPayment orderId user o r items hget howner hstatus hr hlink =>
      have hoid : o.id = orderId := Table.key_of_get hget
      have hpending := h.pending_of_order hr (hoid ▸ hget) (hoid ▸ hlink) hstatus
      have hunits : unitsOf p { r with status := .completed } = unitsOf p r := by
        simp [unitsOf, Reservation.holds, hpending]
      have hkeep := heldUnits_keep (s := { r with status := .completed }) (Table.get_of_mem hr)
        rfl p hunits (e := { d with
          reservations := d.reservations.set { r with status := .completed } }) rfl
      change stock d p + (d.reservations.set { r with status := .completed }).sum (unitsOf p) =
        stock d p + heldUnits d p + 0
      change (d.reservations.set { r with status := .completed }).sum (unitsOf p) = _ at hkeep
      rw [hkeep]
      omega
  | @cancelOrder orderId user o r products items hget howner hstatus hr hlink hstock =>
      have hoid : o.id = orderId := Table.key_of_get hget
      have hpending := h.pending_of_order hr (hoid ▸ hget) (hoid ▸ hlink) hstatus
      have hholds : r.holds := by simp [Reservation.holds, hpending]
      have hmoved := Restocks.conserves (s := .cancelled) hstock (Table.get_of_mem hr) hholds rfl
        (e := { d with
          products := products
          reservations := d.reservations.set { r with status := .cancelled } }) rfl p
      simp only [supplyOf, add_zero]
      exact hmoved
  | @releaseReservation resId r products orders hget hstatus hstock horders =>
      have hid : r.id = resId := Table.key_of_get hget
      have hholds : r.holds := by simp [Reservation.holds, hstatus]
      have hmoved := Restocks.conserves (s := .expired) hstock (hid ▸ hget) hholds rfl
        (e := { d with
          products := products
          reservations := d.reservations.set { r with status := .expired } }) rfl p
      simp only [supplyOf, add_zero]
      exact hmoved

/-! ## Returns -/

/-- A reservation before and after one row was rewritten. -/
theorem get_set_cases {a b r r' : Reservation} {id : Uuid}
    (hget : d.reservations.get a.id = some a) (hr : d.reservations.get id = some r)
    (hr' : (d.reservations.set b).get id = some r') (hid : b.id = a.id) :
    (r = a ∧ r' = b) ∨ r' = r := by
  cases Table.get_set_cases hget hid hr with
  | inl h => exact .inl ⟨h.1.symm, Option.some.inj (hr'.symm.trans h.2)⟩
  | inr hkept => exact .inr (Option.some.inj (hr'.symm.trans hkept))

/-- When a reservation lets go of its units, they go back to the shelf. -/
theorem Change.returns (hc : Change env alone d c d') {id : Uuid} {r r' : Reservation}
    (hr : d.reservations.get id = some r) (hr' : d'.reservations.get id = some r')
    (hholds : r.holds) (hreleased : r'.released) :
    stock d' r.productId = stock d r.productId + r.qtyReserved := by
  have hchanged : r' ≠ r := by
    intro heq
    rw [heq, holds_not_released r hholds] at hreleased
    contradiction
  cases hc with
  | createProduct | updateProduct | moderate =>
      exact absurd (Option.some.inj (hr'.symm.trans hr)) hchanged
  | reserveItems p q hget hq hkey hnew =>
      change (d.reservations.insert _ hnew).get id = some r' at hr'
      rw [Table.get_insert hnew] at hr'
      split at hr'
      · obtain rfl := Option.some.inj hr'
        contradiction
      · exact absurd (Option.some.inj (hr'.symm.trans hr)) hchanged
  | createOrder r₀ p o i stored hget howner hstatus =>
      have hid : r₀.id = _ := Table.key_of_get hget
      cases get_set_cases (a := r₀) (hid ▸ hget) hr hr' rfl with
      | inl heq =>
          rw [heq.2] at hreleased
          simp [Reservation.released, hstatus] at hreleased
      | inr heq => exact absurd heq hchanged
  | confirmOrderPayment o r₀ items hget howner hstatus hr₀ =>
      cases get_set_cases (a := r₀) (Table.get_of_mem hr₀) hr hr' rfl with
      | inl heq =>
          rw [heq.2] at hreleased
          contradiction
      | inr heq => exact absurd heq hchanged
  | @cancelOrder orderId user o r₀ products items hget howner hstatus hr₀ hlink hstock =>
      cases get_set_cases (a := r₀) (Table.get_of_mem hr₀) hr hr' rfl with
      | inl heq =>
          have hshelf := Restocks.stock (e := { d with products := products }) hstock r.productId
          rw [heq.1] at hshelf ⊢
          rw [if_pos rfl] at hshelf
          exact hshelf
      | inr heq => exact absurd heq hchanged
  | @releaseReservation resId r₀ products orders hget hstatus hstock =>
      have hid : r₀.id = resId := Table.key_of_get hget
      cases get_set_cases (a := r₀) (hid ▸ hget) hr hr' rfl with
      | inl heq =>
          have hshelf := Restocks.stock (e := { d with products := products }) hstock r.productId
          rw [heq.1] at hshelf ⊢
          rw [if_pos rfl] at hshelf
          exact hshelf
      | inr heq => exact absurd heq hchanged

/-- A reservation that an operation brings into being is pending. -/
theorem Change.new_reservation (h : Coupled d) (hc : Change env alone d c d') {id : Uuid}
    {r' : Reservation} (hr : d.reservations.get id = none)
    (hr' : d'.reservations.get id = some r') : r'.status = .pending ∧ r'.orderId = none := by
  obtain hsame | ⟨a, b, _, _, hset⟩ | ⟨userId, key, data, hnew, _, hadd⟩ := hc.reservations_cases h
  · rw [hsame, hr] at hr'
    contradiction
  · have hisSome := Table.isSome_get_set (t := d.reservations) (r := b) (k := id)
    rw [← hset, hr', hr] at hisSome
    contradiction
  · rw [hadd, Table.get_insert hnew] at hr'
    split at hr'
    · obtain rfl := Option.some.inj hr'
      exact ⟨rfl, rfl⟩
    · rw [hr] at hr'
      contradiction

/-- Whether a reservation exists and has released its units. -/
def isReleased (d : Db) (id : Uuid) : Nat :=
  match d.reservations.get id with
  | some r => r.released.toNat
  | none => 0

/-- One request returns the units of a reservation exactly when it releases it. -/
theorem isReleased_step (h : Coupled d) (hstep : d' = d ∨ Change env alone d c d') (id : Uuid) :
    isReleased d' id = isReleased d id + (returnsUnits d d' id).toNat := by
  cases hstep with
  | inl heq =>
      subst heq
      have hnone : returnsUnits d' d' id = false := by
        unfold returnsUnits
        cases hr : d'.reservations.get id with
        | none => rfl
        | some r =>
            cases hholds : r.holds with
            | false => simp [hholds]
            | true => simp [holds_not_released r hholds]
      simp [hnone]
  | inr hc =>
      cases hr : d.reservations.get id with
      | none =>
          have hfalse : returnsUnits d d' id = false := by simp [returnsUnits, hr]
          cases hr' : d'.reservations.get id with
          | none => simp [isReleased, hr, hr', hfalse]
          | some r' =>
              have hpending := (hc.new_reservation h hr hr').1
              simp [isReleased, hr, hr', hfalse, Reservation.released, hpending]
      | some r =>
          obtain ⟨r', hr', hrow⟩ := hc.reservation_step h hr
          have hmem := Table.mem_of_get hr
          cases hholds : r.holds with
          | false =>
              have hsame : r' = r := by
                apply hrow.settled
                intro hpending
                simp [Reservation.holds, hpending] at hholds
              subst hsame
              simp [isReleased, returnsUnits, hr, hr', hholds]
          | true =>
              have hkept := holds_not_released r hholds
              cases hrel : r'.released with
              | false => simp [isReleased, returnsUnits, hr, hr', hkept, hrel]
              | true =>
                  have hback := hc.returns hr hr' hholds hrel
                  simp [isReleased, returnsUnits, hr, hr', hkept, hrel, hholds, hback]

end

/-! ## Runs -/

theorem step_conserves {d : Db} (q : Request) (h : Coupled d) (p : Uuid) :
    stock (step d q) p + heldUnits (step d q) p = stock d p + heldUnits d p + supply d q p := by
  cases perform_cases q h with
  | inl hsame =>
      have hzero : supply d q p = 0 := by simp [supply, hsame.1]
      rw [hsame.2, hzero]
      omega
  | inr hchange =>
      have hsupply : supply d q p = supplyOf q.env d p q.call := by
        have hne : (q.perform d).commits.isEmpty = false := by
          simpa [List.isEmpty_iff] using hchange.1
        rw [supply, hne]
        rfl
      rw [hsupply]
      exact hchange.2.conserves h p

theorem run_conserves {d : Db} (qs : List Request) (h : Coupled d) (p : Uuid) :
    stock (run d qs) p + heldUnits (run d qs) p = stock d p + heldUnits d p + supplied d qs p := by
  induction qs generalizing d with
  | nil => simp [run, supplied]
  | cons q qs ih =>
      have hstep := step_conserves q h p
      have hrest := ih (coupled_step q h)
      change stock (run (step d q) qs) p + _ = _
      rw [supplied]
      change _ + heldUnits (run (step d q) qs) p = _
      omega

theorem run_isReleased {d : Db} (qs : List Request) (h : Coupled d) (id : Uuid) :
    isReleased (run d qs) id = isReleased d id + returnCount d qs id := by
  induction qs generalizing d with
  | nil => simp [run, returnCount]
  | cons q qs ih =>
      have hstep := isReleased_step h (step_cases q h) id
      have hrest := ih (coupled_step q h)
      change isReleased (run (step d q) qs) id = _
      rw [returnCount]
      omega

/-- **Stock is conserved**: in every reachable state the shelf of a product is
not overdrawn, and shelf and holdings are together what was supplied; and of
each reservation the units were returned exactly once if it was cancelled or
expired, and never otherwise. -/
theorem stock_conserved (qs : List Request) :
    (∀ p, 0 ≤ stock (run .empty qs) p ∧
      stock (run .empty qs) p + heldUnits (run .empty qs) p = supplied .empty qs p ∧
        heldUnits (run .empty qs) p ≤ supplied .empty qs p) ∧
    ∀ r ∈ (run .empty qs).reservations.rows, returnCount .empty qs r.id =
      if r.status = .cancelled ∨ r.status = .expired then 1 else 0 := by
  constructor
  · intro p
    have hshelf := stock_nonneg (run .empty qs) p
    have hrun := run_conserves qs coupled_empty p
    have hstock : stock .empty p = 0 := rfl
    have hheld : heldUnits .empty p = 0 := rfl
    rw [hstock, hheld] at hrun
    refine ⟨hshelf, ?_, ?_⟩ <;> omega
  · intro r hr
    have hrun := run_isReleased qs coupled_empty r.id
    have hzero : isReleased .empty r.id = 0 := rfl
    have hget := Table.get_of_mem hr
    rw [key_reservation] at hget
    rw [hzero, isReleased, hget, Nat.zero_add] at hrun
    rw [← hrun]
    by_cases hs : r.status = .cancelled ∨ r.status = .expired
    · simp [Reservation.released, hs]
    · simp [Reservation.released, hs]

end FairDrop
