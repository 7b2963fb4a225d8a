import FairDrop.RowStore.Serial
import FairDrop.User.Verification

/-!
# FairDrop.User.Elevation

Who becomes a seller.  Users ask for roles and administrators decide, one call
after the other; any statement may fail.  A user has the role of the request
that was approved last, as long as no save submits APPROVED for a request that
is approved already, or loses the row of the request after it has elevated the
user (`elevation_follows`).
-/

namespace FairDrop

open RowStore

/-! ## Calls -/

inductive DeskCall where
  | create (env : UserEnv) (userId : Uuid) (targetRole : UserRole)
      (docsUrl : Option (List (String × String)))
  | save (env : UserEnv) (requestId : Uuid) (status : VerificationStatus)
      (adminFeedback : Option String)

def DeskCall.program : DeskCall → VerificationTx Unit
  | .create env userId targetRole docsUrl =>
      Prog.inSession ((fun _ => ()) <$> createVerificationRequest env userId targetRole docsUrl)
  | .save env requestId status adminFeedback =>
      Prog.inSession (saveRequest env requestId status adminFeedback)

abbrev DeskDone := Done VerificationDb UserError Unit DeskCall

def UserRole.administrative (role : UserRole) : Bool := role = .admin ∨ role = .moderator

/-! ## Approvals -/

/-- The role of the user's request that a call has moved to APPROVED. -/
def approvedRole (userId : Uuid) (x : DeskDone) : Option UserRole :=
  (x.before.requests.rows.find? fun r => r.userId = userId ∧ r.status ≠ .approved ∧
    (x.after.requests.get r.id).any fun r' => r'.status = .approved).map VerificationRequest.targetRole

/-- The role of the user's request that was moved to APPROVED last. -/
def lastApproved (userId : Uuid) (calls : List DeskDone) : Option UserRole :=
  latest (approvedRole userId) calls

/-- The user with a role, if one was given. -/
def UserRow.elevated (u : UserRow) : Option UserRole → UserRow
  | none => u
  | some role => { u with role := role, isVerified := true }

@[simp] theorem UserRow.id_elevated (u : UserRow) (role : Option UserRole) :
    (u.elevated role).id = u.id := by
  cases role <;> rfl

/-- Saving `APPROVED` moves a request of another status, or gives its user nothing
new: unless the user has the role already, the request is not approved yet, and
its row is stored once the hook (the first three statements) is through. -/
def DeskCall.moves (d : VerificationDb) (faults : List Bool) : DeskCall → Bool
  | .create .. => true
  | .save _ requestId status _ =>
      (d.requests.get requestId).all fun r => (d.accounts.users.get r.userId).all fun u =>
        decide (status ≠ .approved) || (faults.take 3).any id ||
          decide (u.elevated (some r.targetRole) = u) ||
            (decide (r.status ≠ .approved) && !faults.getD 3 false)

/-- Roles follow the approvals. -/
structure FollowsApprovals (d₀ : VerificationDb) (calls : List DeskDone) (d : VerificationDb) :
    Prop where
  users : ∀ id, d.accounts.users.get id =
    (d₀.accounts.users.get id).map fun u => u.elevated (lastApproved id calls)
  edits : ∀ x ∈ calls, ∀ env requestId status adminFeedback r,
    x.call = .save env requestId status adminFeedback → x.before.requests.get requestId = some r →
      r.status = .approved → x.after.accounts = x.before.accounts
  staff : ∀ id u, d.accounts.users.get id = some u → u.role.administrative →
    ∃ u₀, d₀.accounts.users.get id = some u₀ ∧ u₀.role = u.role

/-! ## What each call does -/

/-- The user with the role of the request, in the database. -/
def VerificationDb.elevate (d : VerificationDb) (u : UserRow) (role : UserRole) : VerificationDb :=
  { d with accounts := { d.accounts with users := d.accounts.users.set (u.elevated (some role)) } }

def VerificationDb.update (d : VerificationDb) (r : VerificationRequest) : VerificationDb :=
  { d with requests := d.requests.set r }

/-! The hook has committed after the first three statements of a save; the fourth
stores the row of the request. -/

/-- One of the first three statements fails. -/
theorem any_take_three (faults : List Bool) : (faults.take 3).any id =
    (faults.headD false || (faults.tail.headD false || faults.tail.tail.headD false)) := by
  rcases faults with _ | ⟨a, _ | ⟨b, _ | ⟨c, rest⟩⟩⟩ <;> simp

/-- Whether the fourth statement fails. -/
theorem headD_tail_three (faults : List Bool) :
    faults.tail.tail.tail.headD false = faults.getD 3 false := by
  rcases faults with _ | ⟨a, _ | ⟨b, _ | ⟨c, _ | ⟨e, rest⟩⟩⟩⟩ <;> rfl

section
variable {d : VerificationDb} {env : UserEnv}

/-- A refresh writes nothing. -/
theorem exec_refreshRequest {id : Uuid} {faults : List Bool} {ws : List VerificationWrite} :
    (exec verificationStore (refreshRequest id) faults d ws ()).db = d := by
  rw [refreshRequest, exec_select]
  split
  · rfl
  · cases d.requests.get id <;> rfl

/-- What a `create_verification_request` leaves: a request for a role that is not
administrative, or nothing. -/
theorem create_cases {userId : Uuid} {targetRole : UserRole}
    {docsUrl : Option (List (String × String))} {faults : List Bool} {d' : VerificationDb}
    (h : (perform verificationStore DeskCall.program () d (.create env userId targetRole docsUrl)
      faults).after = d') :
    d' = d ∨ ∃ (r : VerificationRequest) (hnew : d.requests.get r.id = none),
      r.targetRole.administrative = false ∧
        d' = { d with requests := d.requests.insert r hnew } := by
  simp only [perform, DeskCall.program, exec_inSession, exec_map_db] at h
  rw [createVerificationRequest, exec_select] at h
  split at h
  · exact .inl h.symm
  · cases hfound : oneOrNone (d.pendingOf userId) with
    | error e =>
        rw [hfound] at h
        exact .inl h.symm
    | ok existing =>
        rw [hfound] at h
        cases existing with
        | some r => exact .inl h.symm
        | none =>
            by_cases hrole : targetRole = .admin ∨ targetRole = .moderator
            · simp only [hrole] at h
              exact .inl h.symm
            · simp only [hrole] at h
              have hrest : ∀ (x : Except UserError Unit) fs d, (exec verificationStore
                  (Prog.ofExcept x >>= fun _ => refreshRequest (env.uuid 0)) fs d [] ()).db = d := by
                intro x fs d
                cases x with
                | error e => rfl
                | ok _ => exact exec_refreshRequest
              cases exec_write_commit hrest with
              | inl hsame => exact .inl (h.symm.trans hsame)
              | inr happly =>
                  obtain ⟨_, hnew, hd'⟩ := apply_addRequest.mp happly
                  exact .inr ⟨_, hnew, decide_eq_false hrole, h.symm.trans hd'⟩

/-- What the hook and the rest of a save leave: the hook has a session of its own,
so what it commits stays. -/
theorem exec_elevateUser {userId : Uuid} {role : UserRole} {k : VerificationTx Unit}
    (faults : List Bool) :
    (exec verificationStore (accountPart.run (elevateUser userId role) >>= fun _ => k) faults d []
        ()).db =
      match d.accounts.users.get userId with
      | none => d
      | some u =>
          if faults.headD false || faults.tail.headD false then d
          else (exec verificationStore k faults.tail.tail (d.elevate u role) [] ()).db := by
  change (exec verificationStore (.read _) faults d [] ()).db = _
  rw [exec]
  split
  · next h =>
      simp only [h, Bool.true_or, if_true]
      cases d.accounts.users.get userId <;> rfl
  · next h =>
      simp only [Except.map, Prog.ofExcept, Prog.bind, bind, accountPart, h, Bool.false_or]
      cases hu : d.accounts.users.get userId with
      | none => rfl
      | some u =>
          have huid : u.id = userId := Table.key_of_get hu
          have happly : verificationStore.applyAll [.account (.elevateUser u.id role)] d =
              .ok (d.elevate u role) := by
            simp [Store.applyAll_singleton, verificationStore, VerificationWrite.apply,
              UserWrite.apply, huid, hu, Except.map, VerificationDb.elevate, UserRow.elevated]
          change (exec verificationStore (.commit _) _ d [_] ()).db = _
          rw [exec]
          split
          · rfl
          · rw [happly]
            rfl

/-- What the update of the request's row leaves. -/
theorem exec_updateRequest {r : VerificationRequest} (hr : d.requests.get r.id = some r)
    {status : VerificationStatus} {adminFeedback : Option String} (faults : List Bool) :
    (exec verificationStore
        (Prog.save (.updateRequest r.id status adminFeedback env.now) >>= fun _ => Prog.commitWork)
        faults d [] ()).db =
      if faults.headD false then d else d.update (r.edit status adminFeedback env.now) := by
  change (exec verificationStore (.commit _) faults d [_] ()).db = _
  rw [exec]
  split
  · rfl
  · rw [Store.applyAll_singleton]
    simp only [verificationStore, VerificationWrite.apply, hr]
    rfl

/-- What a save can leave behind. -/
inductive Saved (d : VerificationDb) (status : VerificationStatus) (adminFeedback : Option String)
    (now : Timestamp) (requestId : Uuid) (faults : List Bool) : VerificationDb → Prop
  /-- If the save is an approval, its hook has not got through. -/
  | nothing (h : status = .approved → ∀ r u, d.requests.get requestId = some r →
      d.accounts.users.get r.userId = some u → (faults.take 3).any id) :
      Saved d status adminFeedback now requestId faults d
  | decided (r : VerificationRequest) (hr : d.requests.get requestId = some r)
      (hstatus : status ≠ .approved) :
      Saved d status adminFeedback now requestId faults (d.update (r.edit status adminFeedback now))
  /-- The row of the request is lost. -/
  | elevated (r : VerificationRequest) (u : UserRow) (hr : d.requests.get requestId = some r)
      (hu : d.accounts.users.get r.userId = some u) (hstatus : status = .approved)
      (hhook : (faults.take 3).any id = false) (hrow : faults.getD 3 false = true) :
      Saved d status adminFeedback now requestId faults (d.elevate u r.targetRole)
  | approved (r : VerificationRequest) (u : UserRow) (hr : d.requests.get requestId = some r)
      (hu : d.accounts.users.get r.userId = some u) (hstatus : status = .approved)
      (hhook : (faults.take 3).any id = false) (hrow : faults.getD 3 false = false) :
      Saved d status adminFeedback now requestId faults
        ((d.elevate u r.targetRole).update (r.edit status adminFeedback now))

/-- What a save leaves, by the statement that fails. -/
theorem save_cases (env : UserEnv) (requestId : Uuid) (status : VerificationStatus)
    (adminFeedback : Option String) (faults : List Bool) :
    Saved d status adminFeedback env.now requestId faults
      (perform verificationStore DeskCall.program () d (.save env requestId status adminFeedback)
        faults).after := by
  simp only [perform, DeskCall.program, exec_inSession]
  rw [saveRequest, exec_select]
  split
  · next h0 => exact .nothing fun _ _ _ _ _ => by rw [any_take_three, h0]; rfl
  · next h0 =>
    cases hr : d.requests.get requestId with
    | none => exact .nothing fun _ r _ hr' => by simp [hr] at hr'
    | some r =>
        have hr' : d.requests.get r.id = some r := Table.get_of_mem (Table.mem_of_get hr)
        by_cases hstatus : status = .approved
        · simp only [onModelChange, if_pos hstatus]
          rw [exec_elevateUser]
          cases hu : d.accounts.users.get r.userId with
          | none => exact .nothing fun _ r' u' hr' hu' => by simp_all
          | some u =>
              dsimp only
              split
              · next h12 => exact .nothing fun _ _ _ _ _ => by rw [any_take_three, h12]; simp
              · next h12 =>
                have hhook : (faults.take 3).any id = false := by
                  rw [any_take_three]
                  simp_all
                have hget : (d.elevate u r.targetRole).requests.get r.id = some r := hr'
                rw [exec_updateRequest hget, headD_tail_three]
                split
                · next hrow => exact .elevated r u hr hu hstatus hhook hrow
                · next hrow =>
                    exact .approved r u hr hu hstatus hhook (Bool.eq_false_iff.mpr hrow)
        · simp only [onModelChange, if_neg hstatus]
          change Saved _ _ _ _ _ _ (exec verificationStore (Prog.save _ >>= fun _ => Prog.commitWork)
            faults.tail d [] ()).db
          rw [exec_updateRequest hr']
          split
          · exact .nothing fun h => absurd h hstatus
          · exact .decided r hr hstatus

end

/-! ## One call -/

section
variable {d d' : VerificationDb}

/-- A call under which no request becomes approved. -/
theorem approvedRole_eq_none {x : DeskDone} {userId : Uuid}
    (h : ∀ r ∈ x.before.requests.rows, r.status ≠ .approved →
      ∀ r', x.after.requests.get r.id = some r' → r'.status ≠ .approved) :
    approvedRole userId x = none := by
  rw [approvedRole, Option.map_eq_none_iff, List.find?_eq_none]
  intro r hr hcond
  obtain ⟨_, hstatus, hafter⟩ := of_decide_eq_true hcond
  obtain ⟨r', hr', happroved⟩ := (Option.any_eq_true _ _).mp hafter
  exact h r hr hstatus r' hr' (of_decide_eq_true happroved)

/-- A call that changes no request approves nothing. -/
theorem approvedRole_of_requests {x : DeskDone} {userId : Uuid}
    (h : x.after.requests = x.before.requests) : approvedRole userId x = none := by
  refine approvedRole_eq_none fun r hr hstatus r' hr' => ?_
  rw [h, show x.before.requests.get r.id = some r from Table.get_of_mem hr] at hr'
  exact Option.some.inj hr' ▸ hstatus

/-- Only the request that is saved can become approved. -/
theorem approved_of_update {r r' y : VerificationRequest} (hr : d.requests.get r.id = some r)
    (hid : r'.id = r.id) (hy : y ∈ d.requests.rows) (hstatus : y.status ≠ .approved)
    (hafter : ((d.requests.set r').get y.id).any fun z => z.status = .approved) :
    y = r ∧ r'.status = .approved := by
  have hget : d.requests.get y.id = some y := Table.get_of_mem hy
  obtain ⟨z, hz, hzstatus⟩ := (Option.any_eq_true _ _).mp hafter
  cases Table.get_set_cases hr hid hget with
  | inl h =>
      obtain ⟨rfl, hset⟩ := h
      obtain rfl := Option.some.inj (hset.symm.trans hz)
      exact ⟨rfl, of_decide_eq_true hzstatus⟩
  | inr hkept =>
      obtain rfl := Option.some.inj (hkept.symm.trans hz)
      exact absurd (of_decide_eq_true hzstatus) hstatus

/-- The update of a request moves it, or no request becomes approved. -/
theorem approvedRole_update {x : DeskDone} {r r' : VerificationRequest} {userId : Uuid}
    (hafter : x.after.requests = x.before.requests.set r') (hr : x.before.requests.get r.id = some r)
    (hid : r'.id = r.id) : approvedRole userId x =
      if r.userId = userId ∧ r.status ≠ .approved ∧ r'.status = .approved then some r.targetRole
      else none := by
  split
  · next h =>
      obtain ⟨huser, hstatus, happroved⟩ := h
      have hstored : x.after.requests.get r.id = some r' := by
        rw [hafter, ← hid]
        exact Table.get_set_self (r := r') ((congrArg x.before.requests.get hid).trans hr)
      have hsingle := Table.filter_eq_singleton (t := x.before.requests) (r := r)
        (p := fun y => y.userId = userId ∧ y.status ≠ .approved ∧
          (x.after.requests.get y.id).any fun z => z.status = .approved) (Table.mem_of_get hr)
        (by simp [huser, hstatus, hstored, happroved]) fun y hy hcond => by
          obtain ⟨_, hy', hmoved⟩ := of_decide_eq_true hcond
          rw [(approved_of_update hr hid hy hy' (hafter ▸ hmoved)).1]
      rw [approvedRole, ← List.head?_filter, hsingle]
      rfl
  · next h =>
      rw [approvedRole, Option.map_eq_none_iff, List.find?_eq_none]
      intro y hy hcond
      obtain ⟨huser, hstatus, hmoved⟩ := of_decide_eq_true hcond
      obtain ⟨rfl, happroved⟩ := approved_of_update hr hid hy hstatus (hafter ▸ hmoved)
      exact h ⟨huser, hstatus, happroved⟩

/-- To elevate a user who has the role already changes nothing. -/
theorem elevate_self {u : UserRow} {role : UserRole} {id : Uuid}
    (hu : d.accounts.users.get id = some u) (h : u.elevated (some role) = u) :
    d.elevate u role = d := by
  rw [VerificationDb.elevate, h, Table.set_self (Table.get_of_mem (Table.mem_of_get hu))]

/-- Who has which role after an approval. -/
theorem get_elevate {u : UserRow} {role : UserRole} (hu : d.accounts.users.get u.id = some u)
    (id : Uuid) : (d.elevate u role).accounts.users.get id =
      (d.accounts.users.get id).map fun v => v.elevated (if u.id = id then some role else none) := by
  rw [VerificationDb.elevate]
  dsimp only
  rw [Table.get_set_of_key hu (u.id_elevated (some role))]
  by_cases h : u.id = id
  · subst h
    rw [if_pos rfl, if_pos rfl, hu]
    rfl
  · rw [if_neg h, if_neg h]
    exact Option.map_id'.symm

/-- Nobody has asked for an administrative role. -/
def Asked (d : VerificationDb) : Prop :=
  ∀ r ∈ d.requests.rows, r.targetRole.administrative = false

/-- A call gives each user the role of the request that it approves, and nothing
else; it changes no account if its request is approved already. -/
structure CallFollows (x : DeskDone) : Prop where
  users : ∀ id, x.after.accounts.users.get id =
    (x.before.accounts.users.get id).map fun u => u.elevated (approvedRole id x)
  edits : ∀ env requestId status adminFeedback r, x.call = .save env requestId status adminFeedback →
    x.before.requests.get requestId = some r → r.status = .approved →
      x.after.accounts = x.before.accounts
  roles : ∀ id role, approvedRole id x = some role → role.administrative = false

/-- The role of a request that is approved is not an administrative one. -/
theorem Asked.approvedRole {x : DeskDone} (h : Asked x.before) {id : Uuid} {role : UserRole}
    (hrole : approvedRole id x = some role) : role.administrative = false := by
  obtain ⟨r, hr, rfl⟩ := Option.map_eq_some_iff.mp hrole
  exact h r (List.mem_of_find?_eq_some hr)

/-- A request that is edited keeps its role. -/
theorem Asked.update {r r' : VerificationRequest} (h : Asked d) (hr : r ∈ d.requests.rows)
    (hrole : r'.targetRole = r.targetRole) : Asked (d.update r') := by
  intro y hy
  cases Table.mem_set hy with
  | inl hy => rw [hy, hrole]; exact h r hr
  | inr hy => exact h y hy.1

/-- A call that touches no account and approves nothing. -/
theorem CallFollows.of_accounts {x : DeskDone} (hasked : Asked x.before)
    (haccounts : x.after.accounts = x.before.accounts) (hnone : ∀ id, approvedRole id x = none) :
    CallFollows x where
  users id := by
    rw [haccounts, hnone]
    exact Option.map_id'.symm
  edits _ _ _ _ _ _ _ _ := haccounts
  roles _ _ := hasked.approvedRole

/-- Asking for a role approves nothing and changes no account. -/
theorem follows_create {env : UserEnv} {userId : Uuid} {targetRole : UserRole}
    {docsUrl : Option (List (String × String))} {faults : List Bool} (hasked : Asked d) :
    let x := perform verificationStore DeskCall.program () d (.create env userId targetRole docsUrl)
      faults
    Asked x.after ∧ CallFollows x := by
  intro x
  have hafter : (perform verificationStore DeskCall.program () d
    (.create env userId targetRole docsUrl) faults).after = x.after := rfl
  cases create_cases hafter with
  | inl h =>
      refine ⟨h ▸ hasked, .of_accounts hasked (congrArg VerificationDb.accounts h) fun id => ?_⟩
      exact approvedRole_of_requests (congrArg VerificationDb.requests h)
  | inr h =>
      obtain ⟨r, hnew, hrole, h⟩ := h
      constructor
      · rw [h]
        intro y hy
        cases (Table.mem_insert hnew).mp hy with
        | inl hy => exact hasked y hy
        | inr hy => exact hy ▸ hrole
      · refine .of_accounts hasked (h ▸ rfl) fun id => ?_
        refine approvedRole_eq_none fun y hy hstatus y' hy' => ?_
        have hstays : (d.requests.insert r hnew).get y.id = some y :=
          Table.get_of_mem ((Table.mem_insert hnew).mpr (.inl hy))
        rw [h, hstays] at hy'
        exact Option.some.inj hy' ▸ hstatus

/-- What a save that stores `APPROVED` is allowed. -/
theorem DeskCall.moves_approved {env : UserEnv} {requestId : Uuid} {adminFeedback : Option String}
    {faults : List Bool} {r : VerificationRequest} {u : UserRow}
    (h : (save env requestId .approved adminFeedback).moves d faults)
    (hr : d.requests.get requestId = some r) (hu : d.accounts.users.get r.userId = some u)
    (hhook : (faults.take 3).any id = false) : u.elevated (some r.targetRole) = u ∨
      (r.status ≠ .approved ∧ faults.getD 3 false = false) := by
  simpa [moves, hr, hu, hhook] using h

/-- A save changes roles as its approval says when its condition holds. -/
theorem follows_save {env : UserEnv} {requestId : Uuid} {status : VerificationStatus}
    {adminFeedback : Option String} {faults : List Bool} (hasked : Asked d)
    (hmoves : (DeskCall.save env requestId status adminFeedback).moves d faults) :
    let x := perform verificationStore DeskCall.program () d
      (.save env requestId status adminFeedback) faults
    Asked x.after ∧ CallFollows x := by
  intro x
  generalize hafter : x.after = d'
  cases hafter ▸ save_cases (d := d) env requestId status adminFeedback faults with
  | nothing =>
      refine ⟨hasked, .of_accounts hasked (hafter ▸ rfl) fun id => ?_⟩
      exact approvedRole_of_requests (hafter ▸ rfl)
  | decided r hr hstatus =>
      have hmem := Table.mem_of_get hr
      have haccounts : x.after.accounts = d.accounts := hafter ▸ rfl
      have hrequests : x.after.requests = d.requests.set (r.edit status adminFeedback env.now) :=
        hafter ▸ rfl
      refine ⟨hasked.update hmem (r.targetRole_edit ..), .of_accounts hasked haccounts fun id => ?_⟩
      rw [approvedRole_update (x := x) hrequests (Table.get_of_mem hmem) (r.id_edit ..),
        VerificationRequest.status_edit, if_neg fun h => hstatus h.2.2]
  | elevated r u hr hu hstatus hhook hrow =>
      subst hstatus
      have hsame : d.elevate u r.targetRole = d := by
        cases DeskCall.moves_approved hmoves hr hu hhook with
        | inl hself => exact elevate_self hu hself
        | inr hmoved => rw [hrow] at hmoved; exact absurd hmoved.2 (by decide)
      have hd : x.after = d := hafter.trans hsame
      refine ⟨hsame.symm ▸ hasked, .of_accounts hasked (hd ▸ rfl) fun id => ?_⟩
      exact approvedRole_of_requests (hd ▸ rfl)
  | approved r u hr hu hstatus hhook hrow =>
      subst hstatus
      have hmem := Table.mem_of_get hr
      have huid : u.id = r.userId := Table.key_of_get hu
      have hallowed := DeskCall.moves_approved hmoves hr hu hhook
      have haccounts : x.after.accounts = (d.elevate u r.targetRole).accounts := hafter ▸ rfl
      have hrequests : x.after.requests = d.requests.set (r.edit .approved adminFeedback env.now) :=
        hafter ▸ rfl
      refine ⟨Asked.update (d := d.elevate u r.targetRole) hasked hmem (r.targetRole_edit ..),
        fun id => ?_, fun _ _ _ _ r' hcall hr' happroved => ?_, fun _ _ => hasked.approvedRole⟩
      · rw [haccounts, get_elevate (huid ▸ hu), approvedRole_update (x := x) hrequests
          (Table.get_of_mem hmem) (r.id_edit ..), VerificationRequest.status_edit, huid]
        by_cases hid : r.userId = id
        · subst hid
          by_cases happroved : r.status = .approved
          · have hself : u.elevated (some r.targetRole) = u :=
              hallowed.resolve_right fun h => h.1 happroved
            rw [if_pos rfl, if_neg fun h => h.2.1 happroved]
            change (d.accounts.users.get r.userId).map _ = (d.accounts.users.get r.userId).map _
            rw [hu, Option.map_some, Option.map_some, hself]
            rfl
          · rw [if_pos rfl, if_pos ⟨rfl, happroved, rfl⟩]
            rfl
        · rw [if_neg hid, if_neg fun h => hid h.1]
          rfl
      · obtain ⟨_, rfl, _, _⟩ := DeskCall.save.inj hcall
        obtain rfl : r = r' := Option.some.inj (hr.symm.trans hr')
        have hself := hallowed.resolve_right fun h => h.1 happroved
        rw [haccounts, elevate_self hu hself]
        rfl

/-- **Every call follows the approvals.** -/
theorem follows_call {c : DeskCall} {faults : List Bool} (hasked : Asked d)
    (hmoves : c.moves d faults) : let x := perform verificationStore DeskCall.program () d c faults
    Asked x.after ∧ CallFollows x := by
  cases c with
  | create env userId targetRole docsUrl => exact follows_create hasked
  | save env requestId status adminFeedback => exact follows_save hasked hmoves

/-- A call that elevates a user who is not elevated already, and approves nothing. -/
theorem not_follows_of_elevate {x : DeskDone} {u : UserRow} {role : UserRole}
    (hu : x.before.accounts.users.get u.id = some u) (hself : u.elevated (some role) ≠ u)
    (haccounts : x.after.accounts = (x.before.elevate u role).accounts)
    (hnone : approvedRole u.id x = none) : ¬ CallFollows x := by
  intro hfollows
  have husers := hfollows.users u.id
  rw [haccounts, get_elevate hu, hnone, hu, if_pos rfl] at husers
  exact hself (Option.some.inj husers)

/-- Every other call gives a user a role that no approval has given. -/
theorem not_follows_call {c : DeskCall} {faults : List Bool} (h : ¬ c.moves d faults) :
    ¬ CallFollows (perform verificationStore DeskCall.program () d c faults) := by
  cases c with
  | create env userId targetRole docsUrl => exact absurd rfl h
  | save env requestId status adminFeedback =>
      simp only [DeskCall.moves, Option.all_eq_true, not_forall] at h
      obtain ⟨r, hr, u, hu, h⟩ := h
      obtain ⟨rfl, hhook, hself, hmove⟩ : status = .approved ∧ (faults.take 3).any id = false ∧
          u.elevated (some r.targetRole) ≠ u ∧ (r.status = .approved ∨ faults.getD 3 false) := by
        simpa [and_assoc, Classical.or_iff_not_imp_left] using h
      have huid : u.id = r.userId := Table.key_of_get hu
      generalize hx : perform verificationStore DeskCall.program () d
        (.save env requestId .approved adminFeedback) faults = x
      have hbefore : x.before = d := hx ▸ rfl
      have hu' : x.before.accounts.users.get u.id = some u := hbefore ▸ huid ▸ hu
      generalize hafter : x.after = d'
      have hsaved := save_cases (d := d) env requestId .approved adminFeedback faults
      rw [hx, hafter] at hsaved
      cases hsaved with
      | nothing hidle => simp [hidle rfl r u hr hu] at hhook
      | decided _ _ hstatus => exact absurd rfl hstatus
      | elevated r' u' hr' hu'' =>
          obtain rfl := Option.some.inj (hr.symm.trans hr')
          obtain rfl := Option.some.inj (hu.symm.trans hu'')
          refine not_follows_of_elevate hu' hself (hbefore ▸ hafter ▸ rfl) ?_
          exact approvedRole_of_requests (hbefore ▸ hafter ▸ rfl)
      | approved r' u' hr' hu'' _ _ hrow =>
          obtain rfl := Option.some.inj (hr.symm.trans hr')
          obtain rfl := Option.some.inj (hu.symm.trans hu'')
          have happroved : r.status = .approved :=
            hmove.resolve_right fun hfails => absurd (hrow.symm.trans hfails) (by decide)
          refine not_follows_of_elevate hu' hself (hbefore ▸ hafter ▸ rfl) ?_
          have hrequests : x.after.requests =
              x.before.requests.set (r.edit .approved adminFeedback env.now) :=
            hbefore ▸ hafter ▸ rfl
          rw [approvedRole_update (r := r) hrequests
            (hbefore ▸ Table.get_of_mem (Table.mem_of_get hr)) (r.id_edit ..),
            if_neg fun h => h.2.1 happroved]

/-- A call follows the approvals exactly when its condition holds. -/
theorem callFollows_iff {c : DeskCall} {faults : List Bool} (hasked : Asked d) :
    CallFollows (perform verificationStore DeskCall.program () d c faults) ↔ c.moves d faults :=
  ⟨fun h => by_contra fun hmoves => not_follows_call hmoves h,
    fun hmoves => (follows_call hasked hmoves).2⟩

end

/-! ## Runs -/

section
variable {d₀ d : VerificationDb} {calls : List DeskDone}

/-- Every save that elevates a user moves a request. -/
abbrev Moves (d : VerificationDb) (c : DeskCall) (faults : List Bool) : Prop := c.moves d faults

/-- Of two approvals the later one gives the role. -/
theorem UserRow.elevated_elevated (u : UserRow) (role role' : Option UserRole) :
    (u.elevated role).elevated role' = u.elevated (role'.or role) := by
  cases role <;> cases role' <;> rfl

/-- Every user has what the approvals so far have given. -/
theorem users_of_run (hasked : Asked d₀)
    (hrun : Serial verificationStore DeskCall.program () Moves d₀ calls d) (id : Uuid) :
    d.accounts.users.get id =
      (d₀.accounts.users.get id).map fun u => u.elevated (lastApproved id calls) := by
  induction hrun with
  | nil => exact Option.map_id'.symm
  | @snoc calls d c faults hrun hmoves ih =>
      have hdone := (hrun.keeps hasked fun d c faults h hok => follows_call h hok).1
      rw [(follows_call hdone hmoves).2.users]
      change (d.accounts.users.get id).map _ = _
      rw [ih, Option.map_map]
      simp only [lastApproved, latest_snoc]
      congr 1
      funext u
      exact u.elevated_elevated _ _

/-- **Roles follow the approvals**, in every run in which each save that elevates a
user moves a request. -/
theorem elevation_follows (hasked : Asked d₀)
    (hrun : Serial verificationStore DeskCall.program () Moves d₀ calls d) :
    FollowsApprovals d₀ calls d := by
  obtain ⟨_, hcalls⟩ := hrun.keeps (P := CallFollows) hasked fun d c faults => follows_call
  have husers := users_of_run hasked hrun
  refine ⟨husers, fun x hx => (hcalls x hx).edits, fun id u hu hadmin => ?_⟩
  rw [husers] at hu
  obtain ⟨u₀, hu₀, rfl⟩ := Option.map_eq_some_iff.mp hu
  refine ⟨u₀, hu₀, ?_⟩
  cases hlast : lastApproved id calls with
  | none => rfl
  | some role =>
      rw [hlast] at hadmin
      obtain ⟨x, hx, hrole⟩ := exists_of_latest hlast
      have hnot : role.administrative = false := (hcalls x hx).roles id role hrole
      have hadmin' : role.administrative = true := hadmin
      rw [hnot] at hadmin'
      contradiction

end

/-! ## A customer with two requests -/

/-- The customer asks twice, first to be a seller, then to be a B2B seller; each
request is approved in its turn. -/
def approvals : List (DeskCall × List Bool) :=
  [(.create (deskEnv 0 0) customer.id .seller none, []),
    (.save (deskEnv 1 0) 0 .approved none, []),
    (.create (deskEnv 2 1) customer.id .sellerB2b none, []),
    (.save (deskEnv 3 0) 1 .approved none, [])]

/-- Nobody has asked for anything at first. -/
theorem asked_customerDb : Asked customerDb := fun _ hr => absurd hr List.not_mem_nil

/-- The customer ends as a B2B seller, by two approvals. -/
theorem elevation_follows_approvals : ∃ calls d,
    Serial verificationStore DeskCall.program () Moves customerDb calls d ∧
      FollowsApprovals customerDb calls d ∧
        (d.accounts.users.get customer.id).map UserRow.role = some .sellerB2b := by
  have hcalls : (serially verificationStore DeskCall.program () (fun d c faults => c.moves d faults)
      customerDb approvals).any (fun x => decide
        ((x.2.accounts.users.get customer.id).map UserRow.role = some .sellerB2b)) := by
    decide +kernel
  obtain ⟨calls, d, hrun, hrole⟩ := Serial.of_serially_any (fun _ _ _ h => h) hcalls
  exact ⟨calls, d, hrun, elevation_follows asked_customerDb hrun, of_decide_eq_true hrole⟩

/-- An edit of the feedback of the first request, which is approved, makes the
customer a plain seller again. -/
theorem not_elevation_follows : ¬ ∀ (d₀ d : VerificationDb) (calls : List DeskDone), Asked d₀ →
    Serial verificationStore DeskCall.program () (fun _ _ _ => True) d₀ calls d →
      FollowsApprovals d₀ calls d := by
  intro hall
  have hcalls : (serially verificationStore DeskCall.program () (fun _ _ _ => true) customerDb
      (approvals ++ [(.save (deskEnv 4 0) 0 .approved (some "Welcome"), [])])).any
        (fun x => decide (x.2.accounts.users.get customer.id ≠
          (customerDb.accounts.users.get customer.id).map fun u =>
            u.elevated (lastApproved customer.id x.1))) := by decide +kernel
  obtain ⟨calls, d, hrun, hdiffers⟩ := Serial.of_serially_any (fun _ _ _ _ => trivial) hcalls
  exact of_decide_eq_true hdiffers ((hall customerDb d calls asked_customerDb hrun).users customer.id)

end FairDrop
