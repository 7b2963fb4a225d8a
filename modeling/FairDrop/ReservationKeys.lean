import FairDrop.Outcomes

/-!
# FairDrop.ReservationKeys

A reservation key takes stock at most once.  Duplicates may lock different
products, so no row lock serialises them; the unique key is checked when the
unit of work commits, and a refused unit leaves the stock alone as well.
-/

namespace FairDrop

open RowStore

/-- A `reserve_items` execution with this key. -/
def Call.reservesWith (key : String) : Call → Bool
  | .reserveItems _ idempotencyKey _ => idempotencyKey = key
  | _ => false

def Actor.reservesWith (key : String) : Actor → Bool
  | .request call _ => call.reservesWith key
  | .sweep _ _ _ => false

/-- Units of `p` reserved under `key`. -/
def keyedUnits (key : String) (p : Uuid) (r : Reservation) : Int :=
  if r.idempotencyKey = key ∧ r.productId = p then r.qtyReserved else 0

def keyUnits (d : Db) (key : String) (p : Uuid) : Int := d.reservations.sum (keyedUnits key p)

section
variable {d d' : Db} {env : Env} {alone : Bool} {c : Call} {key : String} {p : Uuid}

/-! ## One commit -/

theorem keyUnits_set {a b : Reservation} (ha : d.reservations.get a.id = some a) (hstep : a.Step b)
    (hd : d'.reservations = d.reservations.set b) : keyUnits d' key p = keyUnits d key p := by
  have hkey : Keyed.key b = a.id := hstep.id
  have hsum := Table.sum_set (t := d.reservations) (hkey.symm ▸ ha) (keyedUnits key p)
  have hsame : keyedUnits key p b = keyedUnits key p a := by
    rw [keyedUnits, keyedUnits, hstep.idempotencyKey, hstep.productId, hstep.qtyReserved]
  rw [keyUnits, keyUnits, hd, hsum]
  omega

/-- A new reservation adds its units under its key. -/
theorem keyUnits_insert {userId : Uuid} {key' : String} {data : ReservationCreate}
    (hnew : d.reservations.get (newReservation env userId key' data).id = none) {e : Db}
    (he : e.reservations = d.reservations.insert (newReservation env userId key' data) hnew) :
    keyUnits e key p = keyUnits d key p +
      if key' = key ∧ data.productId = p then data.quantity.val else 0 := by
  rw [keyUnits, he, Table.sum_insert]
  rfl

/-- The units under a key grow by what an execution with that key takes off the
shelf, and otherwise not at all. -/
theorem Change.keyUnits (h : Coupled d) (hc : Change env alone d c d') (key : String) (p : Uuid) :
    FairDrop.keyUnits d' key p = FairDrop.keyUnits d key p +
      if c.reservesWith key then stock d p - stock d' p else 0 := by
  cases hwith : c.reservesWith key with
  | true =>
      cases c with
      | reserveItems userId key' data =>
          obtain rfl : key' = key := of_decide_eq_true hwith
          have hstock := hc.stock_reserve p
          cases hc with
          | moderate _ _ _ _ hm => contradiction
          | reserveItems x q hget hq hkey hnew =>
              rw [keyUnits_insert hnew rfl, hstock]
              by_cases hp : data.productId = p
              · simp [hp]
              · simp [hp]
      | _ => contradiction
  | false =>
      obtain hsame | ⟨a, b, ha, hstep, hset⟩ | ⟨userId, key', data, hnew, rfl, hadd⟩ :=
        hc.reservations_cases h
      · simp [FairDrop.keyUnits, hsame]
      · simpa using keyUnits_set ha hstep hset
      · have hne : key' ≠ key := of_decide_eq_false hwith
        rw [keyUnits_insert hnew hadd]
        simp [hne]

theorem Release.keyUnits {exact : Prop} {id : Uuid} (hc : Release exact env d id d') (key : String)
    (p : Uuid) : FairDrop.keyUnits d' key p = FairDrop.keyUnits d key p := by
  obtain ⟨a, x, q, orders, hget, hstatus⟩ := hc
  have hid : a.id = id := Table.key_of_get hget
  exact keyUnits_set (hid ▸ hget) (.setStatus hstatus .expired) rfl

/-- The reservation with a key accounts for all the units under it. -/
theorem keyUnits_of_mem (h : Coupled d) {r : Reservation} (hr : r ∈ d.reservations.rows)
    (hkey : r.idempotencyKey = key) (p : Uuid) :
    keyUnits d key p = if r.productId = p then r.qtyReserved else 0 := by
  have hother : ∀ x ∈ d.reservations.rows, x ≠ r → keyedUnits key p x = 0 := by
    intro x hx hne
    have hdiff : x.idempotencyKey ≠ key := by
      intro hx'
      exact hne (h.key x hx r hr (hx'.trans hkey.symm))
    simp [keyedUnits, hdiff]
  rw [keyUnits, Table.sum_eq_single hr _ hother]
  simp [keyedUnits, hkey]

theorem keyUnits_of_none (h : ∀ r ∈ d.reservations.rows, r.idempotencyKey ≠ key) (p : Uuid) :
    keyUnits d key p = 0 := by
  apply List.sum_eq_zero
  intro n hn
  obtain ⟨r, hr, rfl⟩ := List.mem_map.mp hn
  simp [keyedUnits, h r hr]

end

/-! ## Runs -/

section
variable {T : Type} {actors : T → Actor}

theorem Actor.Commits.keyUnits {a : Actor} {d d' : Db} (h : Coupled d) (hc : a.Commits False d d')
    (key : String) (p : Uuid) : FairDrop.keyUnits d' key p = FairDrop.keyUnits d key p +
      if a.reservesWith key then stock d p - stock d' p else 0 := by
  cases a with
  | request call env => exact Change.keyUnits h hc key p
  | sweep env expireOnCommit scan =>
      obtain ⟨id, hrelease⟩ := hc
      simpa [reservesWith] using hrelease.keyUnits key p

theorem Actor.Commits.reservation_step {a : Actor} {d d' : Db} (h : Coupled d)
    (hc : a.Commits False d d') {id : Uuid} {r : Reservation}
    (hr : d.reservations.get id = some r) :
    ∃ r', d'.reservations.get id = some r' ∧ r.Step r' := by
  cases a with
  | request call env => exact Change.reservation_step h hc hr
  | sweep env expireOnCommit scan =>
      obtain ⟨id, hrelease⟩ := hc
      exact hrelease.reservation_step hr

/-- What the executions with a key took off the shelf of `p`. -/
def takenWith (actors : T → Actor) (key : String) (p : Uuid) (evs : List (Event Db Write T)) : Int :=
  (evs.map fun ev =>
    if (actors ev.txn).reservesWith key then stock ev.before p - stock ev.after p else 0).sum

variable [DecidableEq T] {s : World T} {evs : List (Event Db Write T)}

/-- What the services raise themselves: a refusal, as opposed to a statement
that did not go through. -/
def Failure.refusal : Failure → Bool
  | .notFound _ | .insufficientInventory _ | .conflict _ => true
  | _ => false

/-- A reservation seen in a run is there at its end, with its key. -/
theorem reservations_last (hrun : Run store Anything (World.start actors) evs s) :
    ∀ ev ∈ evs, ∀ r ∈ ev.after.reservations.rows, ∃ r' ∈ s.db.reservations.rows, r.Step r' := by
  have hlaw := (World.tracks_any hrun).2.2
  have hsteps := hrun.since (r := fun d d' => ∀ id r, d.reservations.get id = some r →
    ∃ r', d'.reservations.get id = some r' ∧ r.Step r')
    (fun _ _ r hr => ⟨r, hr, .refl r⟩)
    (fun a b c hab hbc id r hr => by
      obtain ⟨r₂, hr₂, h₂⟩ := hab id r hr
      obtain ⟨r₃, hr₃, h₃⟩ := hbc id r₂ hr₂
      exact ⟨r₃, hr₃, h₂.trans h₃⟩)
    (fun ev hev id r hr => by
      cases (hlaw ev hev).cases with
      | inl hsame => exact ⟨r, hsame ▸ hr, .refl r⟩
      | inr hcommit => exact Actor.Commits.reservation_step (hlaw ev hev).1 hcommit hr)
  intro ev hev r hr
  obtain ⟨r', hr', hstep⟩ := (hsteps ev hev).2 r.id r (Table.get_of_mem hr)
  exact ⟨r', Table.mem_of_get hr', hstep⟩

/-- What the executions with a key took is what is reserved under it. -/
theorem takenWith_eq (hrun : Run store Anything (World.start actors) evs s) (key : String)
    (p : Uuid) : takenWith actors key p evs = keyUnits s.db key p := by
  have hlaw := (World.tracks_any hrun).2.2
  have hsum := hrun.sum_eq (f := fun d => keyUnits d key p) (g := fun ev =>
    if (actors ev.txn).reservesWith key then stock ev.before p - stock ev.after p else 0)
    (fun ev hev => by
      cases (hlaw ev hev).cases with
      | inl hsame => simp [hsame]
      | inr hcommit => exact Actor.Commits.keyUnits (hlaw ev hev).1 hcommit key p)
  have hzero : keyUnits (World.start actors).db key p = 0 := rfl
  rw [takenWith]
  omega

/-- An execution that was refused has committed nothing. -/
theorem refused_unchanged (hrun : Run store Anything (World.start actors) evs s) {t : T}
    (hkey : ∃ key, (actors t).reservesWith key) {e : Failure}
    (hend : (s.proc t).prog = .fail e) (he : e.refusal) :
    ∀ ev ∈ evs, ev.txn = t → ev.after = ev.before := by
  obtain ⟨htracks, _, hlaw⟩ := World.tracks_any hrun
  obtain ⟨p, hp, hcount⟩ := htracks t
  have hends := hp.rest
  rw [hend] at hends
  have hnone : p.commits = 0 := by
    obtain ⟨key, hkey⟩ := hkey
    cases hactor : actors t with
    | sweep env expireOnCommit scan =>
        rw [hactor] at hkey
        contradiction
    | request call env =>
        have hfinished : Finished (.error e : Except Failure Response) p := by
          have hboth : (actors t).Ends (.error e) p := hends
          rw [hactor] at hboth
          exact hboth.2
        obtain hzero | rfl | rfl := hfinished.2 e rfl
        · exact hzero
        · contradiction
        · contradiction
  intro ev hev ht
  have hquiet := commit_of_commitsOf (hcount ▸ hnone) ev hev ht
  obtain ⟨_, _, hcommit⟩ := hlaw ev hev
  rw [hquiet] at hcommit
  exact hcommit

/-- **A key takes stock at most once** in every interleaving: all reservations
ever seen with the key are one row; what the executions with the key took from
the shelves is what that row holds, or nothing if there is no such row; and an
execution that was refused has left every row as it was. -/
theorem key_takes_stock_once (hrun : Run store Anything (World.start actors) evs s)
    (key : String) :
    (∀ ev ∈ evs, ∀ r ∈ ev.after.reservations.rows, r.idempotencyKey = key →
      ∀ ev' ∈ evs, ∀ r' ∈ ev'.after.reservations.rows, r'.idempotencyKey = key → r'.id = r.id) ∧
    (∀ p, (∀ r ∈ s.db.reservations.rows, r.idempotencyKey = key →
        takenWith actors key p evs = if r.productId = p then r.qtyReserved else 0) ∧
      ((∀ r ∈ s.db.reservations.rows, r.idempotencyKey ≠ key) →
        takenWith actors key p evs = 0)) ∧
    ∀ t, (actors t).reservesWith key → ∀ e, (s.proc t).prog = .fail e → e.refusal →
      ∀ ev ∈ evs, ev.txn = t → ev.after = ev.before := by
  have hcoupled := (World.tracks_any hrun).2.1
  have hlast := reservations_last hrun
  refine ⟨?_, ?_, ?_⟩
  · intro ev hev r hr hkey ev' hev' r' hr' hkey'
    obtain ⟨a, ha, hstep⟩ := hlast ev hev r hr
    obtain ⟨b, hb, hstep'⟩ := hlast ev' hev' r' hr'
    have hsame : a = b := by
      apply hcoupled.key a ha b hb
      rw [hstep.idempotencyKey, hstep'.idempotencyKey, hkey, hkey']
    rw [← hstep.id, ← hstep'.id, hsame]
  · intro p
    rw [takenWith_eq hrun]
    exact ⟨fun r hr hkey => keyUnits_of_mem hcoupled hr hkey p, fun hnone => keyUnits_of_none hnone p⟩
  · intro t hkey e hend he
    exact refused_unchanged hrun ⟨key, hkey⟩ hend he

end

/-- One key for two products, by two users. -/
def duplicateActors : Fin 4 → Actor
  | 0 => .request (.createProduct seller.id lamp seller) (shopEnv 0 0)
  | 1 => .request (.createProduct seller.id lamp seller) (shopEnv 0 1)
  | 2 => .request (.reserveItems buyer.id "key" ⟨0, two⟩) (shopEnv 1 0)
  | 3 => .request (.reserveItems seller.id "key" ⟨1, three⟩) (shopEnv 1 1)

/-- Both have locked their product and written; the first commit wins. -/
theorem key_takes_stock_once_duplicates : ∃ evs s,
    Run store Anything (World.start duplicateActors) evs s ∧ (∃ e, (s.proc 3).prog = .fail e) ∧
      (∀ ev ∈ evs, ev.txn = 3 → ev.after = ev.before) ∧
        takenWith duplicateActors "key" 0 evs = 2 ∧ takenWith duplicateActors "key" 1 evs = 0 := by
  have hexec : ((World.start duplicateActors).exec store (fun _ _ => true)
      (turns [(0, 6), (1, 6), (2, 3), (3, 3), (2, 3), (3, 3)])).any (fun x =>
        (match (x.2.proc 3).prog with
          | .fail e => e.refusal
          | _ => false) && decide (∃ r ∈ x.2.db.reservations.rows,
            r.idempotencyKey = "key" ∧ r.productId = 0 ∧ r.qtyReserved = 2)) := by
    decide +kernel
  obtain ⟨evs, s, hrun, hend⟩ := Run.of_exec_any (fun _ _ _ => trivial) hexec
  obtain ⟨hrefused, hrow⟩ := Bool.and_eq_true_iff.mp hend
  obtain ⟨r, hr, hkey, hproduct, hqty⟩ := of_decide_eq_true hrow
  obtain ⟨_, htaken, hunchanged⟩ := key_takes_stock_once hrun "key"
  split at hrefused
  · next e hfail =>
      refine ⟨evs, s, hrun, ⟨e, hfail⟩, hunchanged 3 (by decide) e hfail hrefused, ?_, ?_⟩
      · rw [(htaken 0).1 r hr hkey, if_pos hproduct, hqty]
      · rw [(htaken 1).1 r hr hkey, if_neg (by rw [hproduct]; decide)]
  · contradiction

end FairDrop
