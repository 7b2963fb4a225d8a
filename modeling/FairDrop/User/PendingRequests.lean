import FairDrop.User.Verification

/-!
# FairDrop.User.PendingRequests

Any number of verification requests that are created side by side.  That a user
has one pending request at most is nowhere but in the lookup that each call
does before its insert; it stays so as long as the lookup would still find
nothing when the insert is committed (`one_pending`).
-/

namespace FairDrop

open RowStore

/-! ## Calls -/

/-- The arguments of a `create_verification_request`. -/
structure RequestCall where
  userId : Uuid
  targetRole : UserRole
  docsUrl : Option (List (String × String))
  env : UserEnv

namespace RequestCall

def row (c : RequestCall) : VerificationRequest :=
  newVerificationRequest c.env c.userId c.targetRole c.docsUrl

def program (c : RequestCall) : VerificationTx VerificationRequest :=
  Prog.inSession (createVerificationRequest c.env c.userId c.targetRole c.docsUrl)

/-- All that a call commits is its row. -/
def rules (c : RequestCall) (inv : VerificationDb → Prop) :
    Rules Unit VerificationDb Empty VerificationWrite where
  inv := inv
  grant _ _ _ := True
  request _ _ _ := True
  commit _ _ d d' := ∃ h : d.requests.get c.row.id = none,
    d' = { d with requests := d.requests.insert c.row h }

end RequestCall

abbrev VerificationWorld (T : Type) :=
  Sys Unit VerificationDb Empty VerificationWrite UserError VerificationRequest T

def VerificationWorld.start {T : Type} (d : VerificationDb) (calls : T → RequestCall) :
    VerificationWorld T :=
  Sys.start d fun t => ((calls t).program, ())

/-! ## One pending request -/

/-- No user has two pending requests. -/
def AtMostOnePending (d : VerificationDb) : Prop :=
  ∀ r ∈ d.requests.rows, ∀ r' ∈ d.requests.rows, r.status = .pending → r'.status = .pending →
    r.userId = r'.userId → r = r'

/-- At its commit a call would still find no pending request of its user. -/
def LookupHolds {T : Type} (calls : T → RequestCall) (s : VerificationWorld T) (t : T) : Prop :=
  s.committing t → s.db.pendingOf (calls t).userId = []

/-- Errors of the database, as opposed to those that the service raises. -/
def UserError.ofDatabase : UserError → Bool
  | .integrityError | .staleData | .operationalError => true
  | _ => false

/-- How a call may fail: there is a pending request, the role is not for users to
ask for, or the database failed the call. -/
inductive RequestCall.Refused (c : RequestCall) (d : VerificationDb) : UserError → Prop
  | exists (r : VerificationRequest) (hr : r ∈ d.requests.rows) (huser : r.userId = c.userId)
      (hpending : r.status = .pending) : Refused c d .verificationRequestAlreadyExists
  | role (hrole : c.targetRole = .admin ∨ c.targetRole = .moderator) :
      Refused c d (.permissionDenied "Cannot request administrative roles")
  | database (e : UserError) (h : e.ofDatabase) : Refused c d e

/-- No user has two pending requests; of the calls for one user one succeeds at
most; and a call that fails ends in `VerificationRequestAlreadyExists`, if it is
not refused for its role or by the database. -/
structure OnePending {T : Type} (calls : T → RequestCall) (s : VerificationWorld T) : Prop where
  unique : AtMostOnePending s.db
  lookup : ∀ userId, oneOrNone (s.db.pendingOf userId) ≠ .error .multipleResultsFound
  once : ∀ t u r r', s.ended t = some (.ok r) → s.ended u = some (.ok r') →
    (calls t).userId = (calls u).userId → t = u
  losing : ∀ t e, s.ended t = some (.error e) → (calls t).Refused s.db e

/-! ## The lookup -/

section
variable {d : VerificationDb} {userId : Uuid}

theorem mem_pendingOf {r : VerificationRequest} :
    r ∈ d.pendingOf userId ↔ r ∈ d.requests.rows ∧ r.userId = userId ∧ r.status = .pending := by
  simp [VerificationDb.pendingOf]

/-- The lookup meets no two rows. -/
theorem AtMostOnePending.pendingOf (h : AtMostOnePending d) (userId : Uuid) :
    d.pendingOf userId = [] ∨ ∃ r, d.pendingOf userId = [r] := by
  cases hrows : d.pendingOf userId with
  | nil => exact .inl rfl
  | cons r rest =>
      have hr : r ∈ d.pendingOf userId := hrows ▸ List.mem_cons_self
      obtain ⟨hmem, huser, hpending⟩ := mem_pendingOf.mp hr
      have hsingle : d.pendingOf userId = [r] := by
        refine Table.filter_eq_singleton hmem (by simp [huser, hpending]) fun x hx hcond => ?_
        obtain ⟨huser', hpending'⟩ : x.userId = userId ∧ x.status = .pending := by simpa using hcond
        rw [h x hx r hmem hpending' hpending (huser'.trans huser.symm)]
      exact .inr ⟨r, hrows ▸ hsingle⟩

theorem AtMostOnePending.lookup (h : AtMostOnePending d) (userId : Uuid) :
    oneOrNone (d.pendingOf userId) ≠ .error .multipleResultsFound := by
  cases h.pendingOf userId with
  | inl hnone => simp [hnone, oneOrNone]
  | inr hone =>
      obtain ⟨r, hr⟩ := hone
      simp [hr, oneOrNone]

/-- Another pending request, for a user who has none. -/
theorem AtMostOnePending.insert (h : AtMostOnePending d) {r : VerificationRequest}
    (hnew : d.requests.get r.id = none) (hnone : d.pendingOf r.userId = []) :
    AtMostOnePending { d with requests := d.requests.insert r hnew } := by
  have hother : ∀ x ∈ d.requests.rows, x.status = .pending → x.userId ≠ r.userId := by
    intro x hx hpending huser
    have hmem := mem_pendingOf.mpr ⟨hx, huser, hpending⟩
    rw [hnone] at hmem
    contradiction
  intro a ha b hb hpa hpb hab
  cases (Table.mem_insert hnew).mp ha with
  | inl ha =>
      cases (Table.mem_insert hnew).mp hb with
      | inl hb => exact h a ha b hb hpa hpb hab
      | inr hb => exact absurd (hb ▸ hab) (hother a ha hpa)
  | inr ha =>
      cases (Table.mem_insert hnew).mp hb with
      | inl hb => exact absurd (ha ▸ hab.symm) (hother b hb hpb)
      | inr hb => rw [ha, hb]

end

/-! ## Runs -/

/-- What a call does, and how it can fail. -/
theorem RequestCall.wp_program (c : RequestCall) {inv : VerificationDb → Prop}
    {K : UserError → Prop}
    (hlookup : ∀ d e, inv d → oneOrNone (d.pendingOf c.userId) = .error e → K e)
    (hexists : ∀ d r, inv d → r ∈ d.pendingOf c.userId → K .verificationRequestAlreadyExists)
    (hrole : c.targetRole = .admin ∨ c.targetRole = .moderator →
      K (.permissionDenied "Cannot request administrative roles"))
    (hdatabase : ∀ e, e.ofDatabase → K e) :
    wp verificationStore (c.rules inv) c.program (.start () none) fun r p =>
      (∀ x, r = .ok x → p.commits = 1) ∧ ∀ e, r = .error e → K e := by
  have hfail : ∀ {e : UserError} {p : Known Unit VerificationDb Empty Empty VerificationWrite},
      K e → (∀ x : VerificationRequest, .error e = (.ok x : Except UserError _) → p.commits = 1) ∧
        ∀ e', (.error e : Except UserError VerificationRequest) = .error e' → K e' :=
    fun h => ⟨fun _ hx => by contradiction, fun _ he => Except.error.inj he ▸ h⟩
  apply wp_inSession
  apply wp_bind
  refine wp_select (fun d _ hd => ?_) (hfail (hdatabase _ rfl))
  apply wp_bind
  apply wp_ofExcept
  cases hfound : oneOrNone (d.pendingOf c.userId) with
  | error e => exact hfail (hlookup d e hd hfound)
  | ok existing =>
      cases existing with
      | some r => exact hfail (hexists d r hd (mem_of_oneOrNone hfound))
      | none =>
          by_cases hadmin : c.targetRole = .admin ∨ c.targetRole = .moderator
          · simp only [hadmin]
            exact hfail (hrole hadmin)
          · simp only [hadmin]
            apply wp_bind
            rw [wp_save]
            apply wp_bind
            refine wp_commitWork_cases (fun d d' _ _ happly => ?_) (fun d e happly => ?_)
              (hfail (hdatabase _ rfl))
            · obtain ⟨d₁, hadd, hend⟩ := Store.applyAll_cons.mp happly
              obtain rfl := Store.applyAll_nil.mp hend
              obtain ⟨_, hnew, rfl⟩ := apply_addRequest.mp hadd
              refine ⟨⟨hnew, rfl⟩, fun r => r.elim, ?_⟩
              apply wp_bind
              refine wp_select (fun d _ _ => ?_) (hfail (hdatabase _ rfl))
              dsimp only
              split
              · exact ⟨fun _ _ => rfl, fun e he => by contradiction⟩
              · exact hfail (hdatabase _ rfl)
            · rw [Known.push, Known.start, List.nil_append, Store.applyAll_singleton] at happly
              obtain rfl := error_addRequest happly
              exact hfail (hdatabase _ rfl)

section
variable {T : Type} [DecidableEq T] {calls : T → RequestCall} {d₀ : VerificationDb}
  {s : VerificationWorld T} {evs : List (Event VerificationDb VerificationWrite T)}

/-- Every event adds a request for a user who has none pending, or nothing. -/
def AddsRequest (calls : T → RequestCall) (ev : Event VerificationDb VerificationWrite T) : Prop :=
  match ev.commit with
  | none => ev.after = ev.before
  | some _ => ev.before.pendingOf (calls ev.txn).userId = [] ∧
      ∃ h : ev.before.requests.get (calls ev.txn).row.id = none,
        ev.after = { ev.before with requests := ev.before.requests.insert (calls ev.txn).row h }

theorem requests_tracks
    (hrun : Run verificationStore (LookupHolds calls) (VerificationWorld.start d₀ calls) evs s) :
    (∀ t r, s.ended t = some (.ok r) → commitsOf t evs = 1) ∧ ∀ ev ∈ evs, AddsRequest calls ev := by
  have hwp : ∀ t, wp verificationStore ((calls t).rules fun _ => True) (calls t).program
      (.start () none) fun r p => (∀ x, r = .ok x → p.commits = 1) ∧ ∀ e, r = .error e → True :=
    fun t => (calls t).wp_program (fun _ _ _ _ => trivial) (fun _ _ _ _ => trivial)
      (fun _ => trivial) fun _ _ => trivial
  obtain ⟨htracks, hevs⟩ := Run.tracks_of_inv hwp (fun _ _ _ _ _ _ _ _ => trivial) hrun
    fun _ _ => trivial
  constructor
  · intro t r hended
    obtain ⟨p, hp, hcommits⟩ := htracks t
    rw [← hcommits]
    exact (hp.ended hended).1 r rfl
  · intro ev hev
    have hok := hevs ev hev
    unfold EventOk at hok
    unfold AddsRequest
    split
    · next hnone =>
        rw [hnone] at hok
        exact hok
    · next ws hsome =>
        rw [hsome] at hok
        obtain ⟨_, s₁, _, hlookup, hcommitting, hdb⟩ := hrun.at_commit hev (by simp [hsome])
        exact ⟨hdb ▸ hlookup hcommitting, hok⟩

/-- A database of a run that ends in `last`. -/
def SeenBefore (last d : VerificationDb) : Prop :=
  AtMostOnePending d ∧ ∀ r ∈ d.requests.rows, r ∈ last.requests.rows

theorem atMostOnePending_of_run (h₀ : AtMostOnePending d₀)
    (hrun : Run verificationStore (LookupHolds calls) (VerificationWorld.start d₀ calls) evs s) :
    AtMostOnePending s.db ∧ ∀ ev ∈ evs, AtMostOnePending ev.before ∧ AtMostOnePending ev.after := by
  refine hrun.keeps h₀ fun ev hev hI => ?_
  have hadds := (requests_tracks hrun).2 ev hev
  unfold AddsRequest at hadds
  split at hadds
  · rw [hadds]
    exact hI
  · obtain ⟨hnone, hnew, hafter⟩ := hadds
    rw [hafter]
    exact hI.insert hnew hnone

omit [DecidableEq T] in
theorem AddsRequest.stay {ev : Event VerificationDb VerificationWrite T} (h : AddsRequest calls ev) :
    ∀ r ∈ ev.before.requests.rows, r ∈ ev.after.requests.rows := by
  intro r hr
  unfold AddsRequest at h
  split at h
  · rw [h]
    exact hr
  · obtain ⟨_, hnew, hafter⟩ := h
    rw [hafter]
    exact (Table.mem_insert hnew).mpr (.inl hr)

/-- Requests stay. -/
theorem requests_stay
    (hrun : Run verificationStore (LookupHolds calls) (VerificationWorld.start d₀ calls) evs s) :
    ∀ ev ∈ evs, ∀ r ∈ ev.before.requests.rows, r ∈ s.db.requests.rows := by
  have hadds := (requests_tracks hrun).2
  intro ev hev
  exact (hrun.since (r := fun d d' => ∀ r ∈ d.requests.rows, r ∈ d'.requests.rows)
    (fun _ _ hr => hr) (fun a b c hab hbc r hr => hbc r (hab r hr))
    (fun ev hev => (hadds ev hev).stay) ev hev).1

/-- Of the calls for one user one commits at most. -/
theorem commits_le_one
    (hrun : Run verificationStore (LookupHolds calls) (VerificationWorld.start d₀ calls) evs s)
    (userId : Uuid) :
    (evs.countP fun ev => ev.commit.isSome && decide ((calls ev.txn).userId = userId)) ≤ 1 := by
  have hadds := (requests_tracks hrun).2
  refine hrun.countP_le_one (f := fun d => decide (d.pendingOf userId ≠ [])) (fun ev hev h => ?_)
    fun ev hev h => ?_
  · obtain ⟨r, hr⟩ := List.exists_mem_of_ne_nil _ (of_decide_eq_true h)
    obtain ⟨hmem, hpending⟩ := mem_pendingOf.mp hr
    exact decide_eq_true
      (List.ne_nil_of_mem (mem_pendingOf.mpr ⟨(hadds ev hev).stay r hmem, hpending⟩))
  · obtain ⟨hcommit, huser⟩ := Bool.and_eq_true_iff.mp h
    obtain rfl := of_decide_eq_true huser
    obtain ⟨ws, hws⟩ := Option.isSome_iff_exists.mp hcommit
    have hev' := hadds ev hev
    simp only [AddsRequest, hws] at hev'
    obtain ⟨hnone, hnew, hafter⟩ := hev'
    have hmem : (calls ev.txn).row ∈ ev.after.pendingOf (calls ev.txn).userId := by
      rw [hafter]
      exact mem_pendingOf.mpr ⟨(Table.mem_insert hnew).mpr (.inr rfl), rfl, rfl⟩
    exact ⟨by simp [hnone], decide_eq_true (List.ne_nil_of_mem hmem)⟩

/-- **No user has two pending requests**, in every run in which the lookup of each
call still holds when it commits. -/
theorem one_pending (h₀ : AtMostOnePending d₀)
    (hrun : Run verificationStore (LookupHolds calls) (VerificationWorld.start d₀ calls) evs s) :
    OnePending calls s := by
  obtain ⟨hnow, hevs⟩ := atMostOnePending_of_run h₀ hrun
  obtain ⟨hone, _⟩ := requests_tracks hrun
  refine ⟨hnow, hnow.lookup, fun t u r r' ht hu huser => ?_, fun t e hended => ?_⟩
  · have hpos : ∀ t r, s.ended t = some (.ok r) → 0 < commitsOf t evs := by
      intro t r ht
      rw [hone t r ht]
      decide
    obtain ⟨ev, hev, rfl, hcommit⟩ := exists_of_commitsOf (hpos t r ht)
    obtain ⟨ev', hev', rfl, hcommit'⟩ := exists_of_commitsOf (hpos u r' hu)
    have hsame := eq_of_countP_le_one (commits_le_one hrun (calls ev.txn).userId) hev
      (by simp [hcommit]) hev' (by simp [hcommit', huser])
    rw [hsame]
  · have hwp : ∀ t, wp verificationStore ((calls t).rules (SeenBefore s.db)) (calls t).program
        (.start () none) fun r p =>
          (∀ x, r = .ok x → p.commits = 1) ∧ ∀ e, r = .error e → (calls t).Refused s.db e := by
      intro t
      refine (calls t).wp_program (fun d e hd he => ?_) (fun d r hd hr => ?_) .role .database
      · cases hd.1.pendingOf (calls t).userId with
        | inl hnone => simp [hnone, oneOrNone] at he
        | inr hsingle =>
            obtain ⟨r, hr⟩ := hsingle
            simp [hr, oneOrNone] at he
      · obtain ⟨hmem, huser, hpending⟩ := mem_pendingOf.mp hr
        exact .exists r (hd.2 r hmem) huser hpending
    have hseen : ∀ ev ∈ evs, SeenBefore s.db ev.before :=
      fun ev hev => ⟨(hevs ev hev).1, requests_stay hrun ev hev⟩
    obtain ⟨p, hp, _⟩ := (Run.tracks_of_inv hwp (fun _ _ _ _ _ _ _ _ => trivial) hrun hseen).1 t
    exact (hp.ended hended).2 e rfl

end

/-! ## Two requests of one customer -/

instance {T : Type} (calls : T → RequestCall) (s : VerificationWorld T) (t : T) :
    Decidable (LookupHolds calls s t) :=
  inferInstanceAs (Decidable (_ → _))

/-- The customer asks to become a seller, three times over. -/
def askingCalls (t : Fin 3) : RequestCall where
  userId := customer.id
  targetRole := .seller
  docsUrl := none
  env := deskEnv 0 t.val

theorem atMostOnePending_customerDb : AtMostOnePending customerDb :=
  fun _ hr => absurd hr List.not_mem_nil

/-- One after the other: the second and the third are refused. -/
theorem one_pending_inTurn : ∃ evs s,
    Run verificationStore (LookupHolds askingCalls)
      (VerificationWorld.start customerDb askingCalls) evs s ∧ OnePending askingCalls s ∧
    s.ended 1 = some (.error .verificationRequestAlreadyExists) ∧
      (s.db.pendingOf customer.id).length = 1 := by
  have hexec : ((VerificationWorld.start customerDb askingCalls).exec verificationStore
      (fun s t => decide (LookupHolds askingCalls s t)) (turns [(0, 5), (1, 2), (2, 2)])).any
      (fun x => decide (x.2.ended 1 = some (.error .verificationRequestAlreadyExists) ∧
        (x.2.db.pendingOf customer.id).length = 1)) := by decide +kernel
  obtain ⟨evs, s, hrun, hend⟩ := Run.of_exec_any (fun _ _ h => of_decide_eq_true h) hexec
  exact ⟨evs, s, hrun, one_pending atMostOnePending_customerDb hrun, of_decide_eq_true hend⟩

/-- The first two look before either has committed: the customer has two pending
requests, and the third lookup fails. -/
theorem not_one_pending : ¬ ∀ (T : Type) [DecidableEq T] (calls : T → RequestCall)
    (d₀ : VerificationDb) (evs : List (Event VerificationDb VerificationWrite T))
    (s : VerificationWorld T), AtMostOnePending d₀ →
    Run verificationStore Anything (VerificationWorld.start d₀ calls) evs s → OnePending calls s := by
  intro hall
  have hexec : ((VerificationWorld.start customerDb askingCalls).exec verificationStore
      (fun _ _ => true) (turns [(0, 1), (1, 5), (0, 4), (2, 2)])).any (fun x =>
        decide ((x.2.db.pendingOf customer.id).length = 2)) := by decide +kernel
  obtain ⟨evs, s, hrun, htwo⟩ := Run.of_exec_any (fun _ _ _ => trivial) hexec
  have hlookup := (hall _ askingCalls customerDb evs s atMostOnePending_customerDb hrun).lookup
    customer.id
  match hrows : s.db.pendingOf customer.id, of_decide_eq_true htwo with
  | [a, b], _ =>
      rw [hrows] at hlookup
      exact hlookup rfl

end FairDrop
