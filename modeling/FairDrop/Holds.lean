import FairDrop.History

/-!
# FairDrop.Holds

How long a reservation is held.  A pass of the sweep scans for what is due and
releases one reservation after the other, long after the scan perhaps; it looks
at the status again, but not at the date.  It need not: a reservation keeps its
`expires_at` (`Reservation.Settled`), so what was due at the scan is due.

`hold_ended` says what can end the hold of a reservation.
-/

namespace FairDrop

open RowStore

/-! ## Dates -/

/-- Reservations have the dates that `deadline` says. -/
def Dated (deadline : Uuid → Option Timestamp) (d : Db) : Prop :=
  ∀ id r, d.reservations.get id = some r → deadline id = some r.expiresAt

/-- The date of the reservation is past. -/
def Due (deadline : Uuid → Option Timestamp) (env : Env) (id : Uuid) : Prop :=
  ∃ t, deadline id = some t ∧ t < env.now

/-- The dates that the reservations of a database have. -/
def Db.deadline (d : Db) (id : Uuid) : Option Timestamp :=
  (d.reservations.get id).map (·.expiresAt)

theorem Preserves.dated {d d' : Db} (h : Preserves d d') : Dated d'.deadline d := by
  intro id r hr
  obtain ⟨r', hr', ⟨⟨status, orderId, rfl⟩, _⟩⟩ := h.reservation id r hr
  simp [Db.deadline, hr']

theorem Dated.due {deadline : Uuid → Option Timestamp} {d : Db} {env : Env} (h : Dated deadline d) :
    ∀ id ∈ expiredIds d env.now, Due deadline env id := by
  intro id hid
  obtain ⟨r, hr, rfl⟩ := List.mem_map.mp hid
  obtain ⟨hmem, hdue⟩ := List.mem_filter.mp hr
  have hpast : r.status = .pending ∧ r.expiresAt < env.now := of_decide_eq_true hdue
  exact ⟨r.expiresAt, h r.id r (Table.get_of_mem hmem), hpast.2⟩

/-! ## Rules -/

/-- The rules of an actor among reservations of known dates: a pass releases
what is due. -/
def Actor.dueRules (deadline : Uuid → Option Timestamp) (a : Actor) : Rules Session Db Row Write :=
  { a.rules (fun _ _ => True) False fun _ _ _ => True with
    inv := fun d => Coupled d ∧ Dated deadline d
    commit := fun alone ws d d' =>
      (a.rules (fun _ _ => True) False fun _ _ _ => True).commit alone ws d d' ∧
        match a with
        | .request _ _ => True
        | .sweep env _ _ => ∃ id, Due deadline env id ∧ Release False env d id d' }

theorem wp_dueSweep {deadline : Uuid → Option Timestamp} {env : Env} {scan : Scan Uuid}
    {expireOnCommit : Bool} :
    wp store ((Actor.sweep env expireOnCommit scan).dueRules deadline)
      (releaseExpiredReservations env expireOnCommit scan) (.start .fresh none) fun _ _ => True := by
  have hweak : (sweepRules (fun _ _ => True) False (fun _ _ _ => True) env
      (Due deadline env)).Weakens ((Actor.sweep env expireOnCommit scan).dueRules deadline) := by
    refine ⟨fun d hd => hd.1, fun _ _ _ h => h, fun _ _ _ h => h, ?_⟩
    rintro alone ws d d' ⟨id, hdue, hrelease⟩
    exact ⟨⟨id, trivial, hrelease⟩, id, hdue, hrelease⟩
  apply wp_bind
  refine wp_select (fun d _ hinv => ?_) trivial
  -- The dates are read off the rows of the scan.
  have hdue : ∀ id ∈ scan.val (expiredIds d env.now), Due deadline env id :=
    fun id hid => hinv.2.due id ((scan.property _).subset hid)
  refine wp_weaken hweak (wp_releaseAll hdue (List.pairwise_of_forall fun _ _ => trivial)
    (fun h => h.elim) (.inr fun h => h.elim) rfl ?_)
  intro h hmem
  contradiction

theorem Actor.wp_due (deadline : Uuid → Option Timestamp) (a : Actor) :
    wp store (a.dueRules deadline) a.program (.start .fresh none) fun _ _ => True := by
  cases a with
  | request call env =>
      have hweak : ((Actor.request call env).rules (fun _ _ => True) False fun _ _ _ => True).Weakens
          ((Actor.request call env).dueRules deadline) :=
        ⟨fun d hd => hd.1, fun _ _ _ h => h, fun _ _ _ h => h, fun _ _ _ _ h => ⟨h, trivial⟩⟩
      exact wp_mono (fun _ _ _ => trivial) (wp_weaken hweak
        ((Actor.request call env).wp_program (Actor.ascending_top _) (.inl trivial)))
  | sweep env expireOnCommit scan =>
      apply wp_inSession
      apply wp_map
      exact wp_dueSweep

/-! ## Who ends a hold -/

/-- What ends the hold of the pending reservation `r`, and how it is left: its
user or the staff pay or cancel its order, or a pass of the sweep runs when the
reservation is due. -/
inductive EndsHold (r : Reservation) : Actor → OrderStatus → Prop
  | paid {orderId user env} (link : r.orderId = some orderId)
      (allowed : user.isStaff ∨ r.userId = user.id) :
      EndsHold r (.request (.confirmOrderPayment orderId user) env) .completed
  | cancelled {orderId user env} (link : r.orderId = some orderId)
      (allowed : user.isStaff ∨ r.userId = user.id) :
      EndsHold r (.request (.cancelOrder orderId user) env) .cancelled
  | expired {env expireOnCommit scan} (due : r.expiresAt < env.now) :
      EndsHold r (.sweep env expireOnCommit scan) .expired

section
variable {env : Env} {alone : Bool} {c : Call} {d d' : Db} {id : Uuid} {r r' : Reservation}

/-- A rewritten reservation, seen from one that leaves `PENDING`. -/
theorem rewritten_of_ended {a : Reservation} {s : OrderStatus} {k : Uuid}
    (ha : d.reservations.get k = some a) (hr : d.reservations.get id = some r)
    (hpending : r.status = .pending)
    (hr' : (d.reservations.set { a with status := s }).get id = some r')
    (hended : r'.status ≠ .pending) : a = r ∧ r'.status = s := by
  have hid : a.id = k := Table.key_of_get ha
  rcases Table.get_set_cases (b := { a with status := s }) ha hid hr with ⟨hsame, hset⟩ | hkept
  · obtain rfl := Option.some.inj (hset.symm.trans hr')
    exact ⟨hsame, rfl⟩
  · obtain rfl := Option.some.inj (hkept.symm.trans hr')
    exact absurd hpending hended

theorem Release.expires {exact : Prop} (hc : Release exact env d id d') :
    ∃ a, d.reservations.get id = some a ∧
      d'.reservations = d.reservations.set { a with status := .expired } := by
  obtain ⟨a, p, q, orders, hget, _, _, _, _⟩ := hc
  exact ⟨a, hget, rfl⟩

/-- **One call** ends a hold by paying or cancelling the order. -/
theorem Change.ends_hold (h : Coupled d) (hc : Change env alone d c d')
    (hcall : ∀ id, c ≠ .releaseReservation id) (hr : d.reservations.get id = some r)
    (hpending : r.status = .pending) (hr' : d'.reservations.get id = some r')
    (hended : r'.status ≠ .pending) : EndsHold r (.request c env) r'.status := by
  have hsame : d.reservations.get id ≠ some r' := by
    intro hget
    obtain rfl := Option.some.inj (hr.symm.trans hget)
    exact hended hpending
  have howner : ∀ {o : Order} {user : User}, d.orders.get o.id = some o → r.orderId = some o.id →
      checkOwnership user o.owned = .ok () → user.isStaff ∨ r.userId = user.id := by
    intro o user ho hlink hcheck
    obtain ⟨i, horder⟩ := h.orderOf (Table.mem_of_get hr) ho hlink
    rw [← horder.userId]
    exact checkOwnership_order.mp hcheck
  cases hc with
  | createProduct | updateProduct | moderate => exact absurd hr' hsame
  | reserveItems p q hget hq hkey hnew =>
      have hkept := Table.get_insert_of_get hnew hr
      obtain rfl := Option.some.inj (hkept.symm.trans hr')
      exact absurd hpending hended
  | createOrder a p o i stored hget howner' hstatus hdue hlink =>
      have hid : a.id = _ := Table.key_of_get hget
      rcases Table.get_set_cases (b := { a with orderId := some o.id }) hget hid hr with
        ⟨rfl, hset⟩ | hkept
      · obtain rfl := Option.some.inj (hset.symm.trans hr')
        exact absurd hpending hended
      · obtain rfl := Option.some.inj (hkept.symm.trans hr')
        exact absurd hpending hended
  | confirmOrderPayment o a items hget howner' hstatus ha hlink =>
      have hid : o.id = _ := Table.key_of_get hget
      obtain ⟨rfl, hs⟩ := rewritten_of_ended (Table.get_of_mem ha) hr hpending hr' hended
      rw [hs]
      exact .paid hlink (howner (hid ▸ hget) (hid ▸ hlink) howner')
  | cancelOrder o a products items hget howner' hstatus ha hlink =>
      have hid : o.id = _ := Table.key_of_get hget
      obtain ⟨rfl, hs⟩ := rewritten_of_ended (Table.get_of_mem ha) hr hpending hr' hended
      rw [hs]
      exact .cancelled hlink (howner (hid ▸ hget) (hid ▸ hlink) howner')
  | releaseReservation => exact absurd rfl (hcall _)

end

/-! ## Runs -/

section
variable {T : Type} [DecidableEq T] {actors : T → Actor} {ok : World T → T → Prop} {s s' : World T}
  {evs evs' : List (Event Db Write T)}

/-- What a pass commits is the release of a reservation that is due. -/
theorem World.due (hrun : Run store ok (World.start actors) evs s) {ev : Event Db Write T}
    (hev : ev ∈ evs) {env : Env} {expireOnCommit : Bool} {scan : Scan Uuid}
    (hactor : actors ev.txn = .sweep env expireOnCommit scan) (hcommit : ev.commit.isSome) :
    ∃ r, ev.before.reservations.get r.id = some r ∧ r.expiresAt < env.now ∧
      Release False env ev.before r.id ev.after := by
  have hpreserves := World.preserves_of_run hrun
  have hevs := (World.tracks_any hrun).2.2
  have hgrant : ∀ s' t, ok s' t → GrantOk ((actors t).dueRules s.db.deadline) s' t := by
    intro s' t _ find k r _ _
    cases hactor : actors t <;> trivial
  have hinv : ∀ ev ∈ evs, ((actors ev.txn).dueRules s.db.deadline).inv ev.before :=
    fun ev hev => ⟨(hevs ev hev).1, (hpreserves ev hev).1.dated⟩
  obtain ⟨_, hlaw⟩ := Run.tracks_of_inv (fun t => (actors t).wp_due s.db.deadline) hgrant hrun hinv
  have hok := hlaw ev hev
  obtain ⟨ws, hws⟩ := Option.isSome_iff_exists.mp hcommit
  rw [EventOk, hws] at hok
  change ((actors ev.txn).dueRules s.db.deadline).commit false ws ev.before ev.after at hok
  rw [hactor] at hok
  obtain ⟨-, id, ⟨t, ht, hpast⟩, hrelease⟩ := hok
  obtain ⟨r, hget, _⟩ := hrelease.expires
  obtain rfl : r.id = id := Table.key_of_get hget
  have hdate := (hpreserves ev hev).1.dated r.id r hget
  rw [ht] at hdate
  exact ⟨r, hget, Option.some.inj hdate ▸ hpast, hrelease⟩

/-- One event ends a hold. -/
theorem World.ends_hold (hcalls : ∀ t id env, actors t ≠ .request (.releaseReservation id) env)
    (hrun : Run store ok (World.start actors) evs s) {ev : Event Db Write T} (hev : ev ∈ evs)
    {id : Uuid} {r r' : Reservation} (hr : ev.before.reservations.get id = some r)
    (hpending : r.status = .pending) (hr' : ev.after.reservations.get id = some r')
    (hended : r'.status ≠ .pending) :
    ev.commit.isSome ∧ EndsHold r (actors ev.txn) r'.status := by
  obtain ⟨hcoupled, _, hlaw⟩ := (World.tracks_any hrun).2.2 ev hev
  split at hlaw
  · rw [hlaw, hr] at hr'
    obtain rfl := Option.some.inj hr'
    exact absurd hpending hended
  · next ws hws =>
      refine ⟨by rw [hws]; rfl, ?_⟩
      cases hactor : actors ev.txn with
      | request c env =>
          rw [hactor] at hlaw
          have hcall : ∀ id, c ≠ .releaseReservation id := by
            rintro id rfl
            exact hcalls _ _ _ hactor
          exact Change.ends_hold hcoupled hlaw hcall hr hpending hr' hended
      | sweep env expireOnCommit scan =>
          obtain ⟨a, ha, hpast, hrelease⟩ := World.due hrun hev hactor (by rw [hws]; rfl)
          obtain ⟨b, hb, hset⟩ := hrelease.expires
          obtain rfl := Option.some.inj (ha.symm.trans hb)
          rw [hset] at hr'
          obtain ⟨rfl, hs⟩ := rewritten_of_ended ha hr hpending hr' hended
          rw [hs]
          exact .expired hpast

/-- **A hold ends with a reason**: if a reservation that is pending at some point
of a run is not pending at a later one, then in between its user or the staff
have paid or cancelled its order, or a pass of the sweep has found it due. -/
theorem hold_ended (hcalls : ∀ t id env, actors t ≠ .request (.releaseReservation id) env)
    (hrun : Run store ok (World.start actors) evs s) (hmore : Run store ok s evs' s') {id : Uuid}
    {r r' : Reservation} (hr : s.db.reservations.get id = some r) (hpending : r.status = .pending)
    (hr' : s'.db.reservations.get id = some r') (hended : r'.status ≠ .pending) :
    ∃ ev ∈ evs', ev.commit.isSome ∧ ∃ a, ev.before.reservations.get id = some a ∧ r.Settled a ∧
      a.status = .pending ∧ EndsHold a (actors ev.txn) r'.status := by
  induction hmore generalizing r' with
  | nil =>
      obtain rfl := Option.some.inj (hr.symm.trans hr')
      exact absurd hpending hended
  | @snoc evs' s₁ t fault c s₂ hrun₁ hok hstep ih =>
      have hall := hrun.append (.snoc hrun₁ hok hstep)
      have hlast : (⟨t, c, s₁.db, s₂.db⟩ : Event Db Write T) ∈ evs ++ (evs' ++ [⟨t, c, s₁.db, s₂.db⟩]) :=
        by simp
      obtain ⟨a, ha, hsettled⟩ := (World.preserves hrun hrun₁).reservation id r hr
      obtain ⟨b, hb, hstill⟩ := (World.preserves_of_run hall _ hlast).1.reservation id a ha
      obtain rfl := Option.some.inj (hb.symm.trans hr')
      by_cases hwaits : a.status = .pending
      · obtain ⟨hcommit, hends⟩ := World.ends_hold hcalls hall hlast ha hwaits hr' hended
        exact ⟨_, by simp, hcommit, a, ha, hsettled, hwaits, hends⟩
      · obtain ⟨ev, hev, hfound⟩ := ih ha hwaits
        obtain rfl := hstill.2.1 hwaits
        exact ⟨ev, by simp [hev], hfound⟩

end

/-- A lamp is reserved and forgotten. -/
def forgottenActors : Fin 3 → Actor
  | 0 => .request (.createProduct seller.id lamp seller) (shopEnv 0 0)
  | 1 => .request (.reserveItems buyer.id "key" ⟨0, two⟩) (shopEnv 1 0)
  | 2 => .sweep (shopEnv (reserveEnd + 2) 0) workerExpireOnCommit tableOrder

theorem hold_ended_forgotten : ∃ evs s evs' s',
    Run store Anything (World.start forgottenActors) evs s ∧ Run store Anything s evs' s' ∧
    ∃ ev ∈ evs', ev.commit.isSome ∧ ∃ a, ev.before.reservations.get 0 = some a ∧
      a.status = .pending ∧ EndsHold a (forgottenActors ev.txn) .expired := by
  have hexec : ((World.start forgottenActors).exec store (fun _ _ => true)
      (turns [(0, 6), (1, 6)])).any (fun x =>
        (x.2.exec store (fun _ _ => true) (turns [(2, 8)])).any fun y =>
          decide ((x.2.db.reservations.get 0).any (·.status = .pending) ∧
            (y.2.db.reservations.get 0).any (·.status = .expired))) := by decide +kernel
  obtain ⟨evs, s, hrun, hexec'⟩ := Run.of_exec_any (fun _ _ _ => trivial) hexec
  obtain ⟨evs', s', hmore, hended⟩ := Run.of_exec_any (fun _ _ _ => trivial) hexec'
  obtain ⟨hbefore, hafter⟩ := of_decide_eq_true hended
  obtain ⟨r, hr, hpending⟩ := (Option.any_eq_true _ _).mp hbefore
  obtain ⟨r', hr', hexpired⟩ := (Option.any_eq_true _ _).mp hafter
  have hs : r'.status = .expired := of_decide_eq_true hexpired
  have hcalls : ∀ t id env, forgottenActors t ≠ .request (.releaseReservation id) env := by
    intro t id env
    match t with
    | 0 | 1 | 2 => simp [forgottenActors]
  obtain ⟨ev, hev, hcommit, a, ha, -, hstatus, hends⟩ := hold_ended hcalls hrun hmore hr
    (of_decide_eq_true hpending) hr' (by rw [hs]; decide)
  rw [hs] at hends
  exact ⟨evs, s, evs', s', hrun, hmore, ev, hev, hcommit, a, ha, hstatus, hends⟩

end FairDrop
