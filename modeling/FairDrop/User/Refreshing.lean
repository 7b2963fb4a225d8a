import FairDrop.RowStore.Faults
import FairDrop.User.Guards
import FairDrop.User.Logins

/-!
# FairDrop.User.Refreshing

A refresh of a token that fails on the way.  The old token is deleted by a commit
of its own, before the access token is made and the new token stored: whoever
fails in between has neither (`keepsSession_iff`).
-/

namespace FairDrop

open RowStore

/-! ## Tokens that are accepted -/

/-- `refresh_access_token` accepts the token. -/
def UserDb.Accepts (d : UserDb) (env : UserEnv) (token : String) : Prop :=
  ∃ user, (exec userStore (refreshAccessToken env token) [] d [] ()).value = .ok user

/-- The rows of the token, each with its user. -/
def UserDb.matching (d : UserDb) (token : String) : List (RefreshToken × UserRow) :=
  d.refreshTokens.rows.filterMap fun r =>
    if r.token = token then (d.users.get r.userId).map fun user => (r, user) else none

section
variable {d d' : UserDb} {env : UserEnv} {now : Timestamp} {token : String} {row : RefreshToken}
  {user : UserRow}

/-- A token is valid exactly when it matches one row that has not expired. -/
theorem UserDb.validToken_eq_ok : d.validToken now token = .ok (row, user) ↔
    d.matching token = [(row, user)] ∧ now ≤ row.expiresAt := by
  change (oneOrNone (d.matching token)).bind _ = .ok (row, user) ↔ _
  rcases d.matching token with _ | ⟨⟨r, u⟩, _ | ⟨y, rest⟩⟩
  · simp [oneOrNone, Except.bind]
  · simp only [oneOrNone, Except.bind, List.cons.injEq, Prod.mk.injEq, and_true]
    split
    · next hexpired =>
        simp only [reduceCtorEq, false_iff]
        rintro ⟨⟨rfl, rfl⟩, hle⟩
        exact Int.not_le.mpr hexpired hle
    · next hexpired =>
        simp only [Except.ok.injEq, Prod.mk.injEq]
        constructor
        · rintro ⟨rfl, rfl⟩
          exact ⟨⟨rfl, rfl⟩, Int.not_lt.mp hexpired⟩
        · exact fun h => h.1
  · simp [oneOrNone, Except.bind]

/-- The `DELETE` goes through, so that the check decides. -/
theorem UserDb.accepts_iff : d.Accepts env token ↔ ∃ x, d.validToken env.now token = .ok x := by
  have hcall : (exec userStore (refreshAccessToken env token) [] d [] ()).value =
      (exec userStore (Prog.ofExcept (d.validToken env.now token) >>= fun x => do
        Prog.save (.deleteRefreshToken x.1.id)
        Prog.commitWork
        return x.2) [] d [] ()).value := rfl
  unfold Accepts
  rw [hcall]
  cases hvalid : d.validToken env.now token with
  | error e =>
      constructor
      · rintro ⟨user, h⟩
        exact absurd h (by simp [Prog.ofExcept, exec, bind, Prog.bind])
      · rintro ⟨x, h⟩
        contradiction
  | ok x => exact ⟨fun _ => ⟨x, rfl⟩, fun _ => ⟨x.2, rfl⟩⟩

theorem UserDb.accepts_of_matching (h : d.matching token = [(row, user)])
    (hexpires : env.now ≤ row.expiresAt) : d.Accepts env token :=
  accepts_iff.mpr ⟨(row, user), validToken_eq_ok.mpr ⟨h, hexpires⟩⟩

theorem UserDb.not_accepts_of_matching (h : d.matching token = []) : ¬ d.Accepts env token := by
  rw [accepts_iff]
  rintro ⟨⟨row, user⟩, hvalid⟩
  rw [(validToken_eq_ok.mp hvalid).1] at h
  contradiction

/-! ## A refresh that may fail -/

end

/-- `POST /auth/refresh`, and what `create_access_token` raises, if it does. -/
def refreshTokenRaising {J : Type} (crypto : Crypto J) (env : UserEnv) (raised : Option UserError)
    (token : String) : UserTx (Token J) := do
  let user ← refreshAccessToken env token
  match raised with
  | some e => throw e
  | none =>
      let refreshToken ← createRefreshToken env user.id
      return ⟨createAccessToken crypto env user.email, refreshToken, user⟩

theorem refreshTokenRaising_none {J : Type} (crypto : Crypto J) (env : UserEnv) (token : String) :
    refreshTokenRaising crypto env none token = refreshToken crypto env token := rfl

/-- Afterwards the presented token is still accepted, or the request has
succeeded and its new token is. -/
def KeepsSession {J : Type} (crypto : Crypto J) (env : UserEnv) (raised : Option UserError)
    (faults : List Fault) (d : UserDb) (token : String) : Prop :=
  let left := endure userStore (refreshTokenRaising crypto env raised token) faults d [] ()
  left.db.Accepts env token ∨ ∃ t, left.value = .ok t ∧ left.db.Accepts env t.refreshToken

/-- The `INSERT` of the new token meets a row with its token or its id. -/
def Collides (d : UserDb) (env : UserEnv) (row : RefreshToken) : Prop :=
  ∃ r ∈ d.refreshTokens.rows, r.id ≠ row.id ∧ (r.token = env.tokenUrlsafe ∨ r.id = env.uuid 0)

/-- The old token is deleted for good, and something fails after that. -/
def LosesSession (env : UserEnv) (raised : Option UserError) (faults : List Fault) (d : UserDb)
    (token : String) (row : RefreshToken) : Prop :=
  faults.headD .none = .none ∧ faults.tail.headD .none ≠ .refused ∧
    (faults.tail.headD .none = .lost ∨ raised.isSome ∨ Collides d env row ∨
      faults.tail.tail.headD .none = .refused ∨
      faults.tail.tail.headD .none = .lost ∧ env.tokenUrlsafe ≠ token)

section
variable {J : Type} {crypto : Crypto J} {env : UserEnv} {raised : Option UserError}
  {faults : List Fault} {d : UserDb} {token : String} {row : RefreshToken} {user : UserRow}

/-- What the first commit leaves. -/
def spentDb (d : UserDb) (row : RefreshToken) : UserDb :=
  { d with refreshTokens := d.refreshTokens.erase row.id }

/-- And what the second leaves then. -/
def mintedDb (d : UserDb) (env : UserEnv) (row : RefreshToken) (user : UserRow)
    (h : (spentDb d row).refreshTokens.get (env.uuid 0) = none) : UserDb :=
  { spentDb d row with
    refreshTokens := (spentDb d row).refreshTokens.insert (newRefreshToken env user.id) h }

/-- A spent token matches nothing. -/
theorem matching_spentDb (h : d.matching token = [(row, user)]) :
    (spentDb d row).matching token = [] := by
  unfold UserDb.matching
  rw [List.filterMap_eq_nil_iff]
  intro r hr
  obtain ⟨hr, hne⟩ := Table.mem_erase.mp hr
  by_contra hsome
  obtain ⟨x, hx⟩ := Option.ne_none_iff_exists'.mp hsome
  have hmem : x ∈ d.matching token := List.mem_filterMap.mpr ⟨r, hr, hx⟩
  rw [h, List.mem_singleton] at hmem
  split at hx
  · obtain ⟨u, -, rfl⟩ := Option.map_eq_some_iff.mp hx
    exact hne (congrArg RefreshToken.id (Prod.mk.inj hmem).1)
  · contradiction

/-- No other row has the token or the id of the new one. -/
theorem not_collides : ¬ Collides d env row ↔
    (∀ r ∈ (spentDb d row).refreshTokens.rows, r.token ≠ env.tokenUrlsafe) ∧
      (spentDb d row).refreshTokens.get (env.uuid 0) = none := by
  rw [Table.get_eq_none_iff]
  simp only [spentDb, Table.mem_erase, key_refreshToken, Collides, not_exists, not_and, not_or]
  constructor
  · exact fun h => ⟨fun r hr => (h r hr.1 hr.2).1, fun r hr => (h r hr.1 hr.2).2⟩
  · exact fun h r hr hne => ⟨h.1 r ⟨hr, hne⟩, h.2 r ⟨hr, hne⟩⟩

/-- A new token that collides with a stored one is refused. -/
theorem apply_mint_of_collides (user : UserRow) (h : Collides d env row) :
    ∃ e, (UserWrite.addRefreshToken (newRefreshToken env user.id)).apply (spentDb d row) =
      .error e := by
  cases hminted : (UserWrite.addRefreshToken (newRefreshToken env user.id)).apply (spentDb d row) with
  | error e => exact ⟨e, rfl⟩
  | ok d' =>
      obtain ⟨hunique, hnew, -⟩ := apply_addRefreshToken hminted
      exact absurd h (not_collides.mpr ⟨hunique, hnew⟩)

/-- A new token that collides with none is stored. -/
theorem apply_mint (huser : (d.users.get user.id).isSome)
    (hunique : ∀ r ∈ (spentDb d row).refreshTokens.rows, r.token ≠ env.tokenUrlsafe)
    (hnew : (spentDb d row).refreshTokens.get (env.uuid 0) = none) :
    (UserWrite.addRefreshToken (newRefreshToken env user.id)).apply (spentDb d row) =
      .ok (mintedDb d env row user hnew) :=
  addRefreshToken_eq_ok huser hunique hnew

/-- What matches after a new token is stored. -/
theorem matching_mintedDb (huser : d.users.get user.id = some user)
    (hnew : (spentDb d row).refreshTokens.get (env.uuid 0) = none) (t : String) :
    (mintedDb d env row user hnew).matching t = (spentDb d row).matching t ++
      if env.tokenUrlsafe = t then [(newRefreshToken env user.id, user)] else [] := by
  unfold UserDb.matching
  show List.filterMap _ ((spentDb d row).refreshTokens.rows ++ [newRefreshToken env user.id]) = _
  rw [List.filterMap_append]
  congr 1
  have huser' : (mintedDb d env row user hnew).users.get (newRefreshToken env user.id).userId =
      some user := huser
  by_cases ht : env.tokenUrlsafe = t
  · have htoken : (newRefreshToken env user.id).token = t := ht
    rw [if_pos ht, List.filterMap_cons_some (b := (newRefreshToken env user.id, user))]
    · rfl
    · rw [if_pos htoken, huser']
      rfl
  · have htoken : ¬ (newRefreshToken env user.id).token = t := ht
    rw [if_neg ht, List.filterMap_cons_none]
    · rfl
    · rw [if_neg htoken]

/-- The new token is accepted once it is stored. -/
theorem accepts_mintedDb (huser : d.users.get user.id = some user)
    (hunique : ∀ r ∈ (spentDb d row).refreshTokens.rows, r.token ≠ env.tokenUrlsafe)
    (hnew : (spentDb d row).refreshTokens.get (env.uuid 0) = none) :
    (mintedDb d env row user hnew).Accepts env env.tokenUrlsafe := by
  have hnone : (spentDb d row).matching env.tokenUrlsafe = [] := by
    unfold UserDb.matching
    rw [List.filterMap_eq_nil_iff]
    exact fun r hr => if_neg (hunique r hr)
  have hfound : (mintedDb d env row user hnew).matching env.tokenUrlsafe =
      [(newRefreshToken env user.id, user)] := by
    rw [matching_mintedDb huser, hnone, if_pos rfl, List.nil_append]
  refine UserDb.accepts_of_matching hfound ?_
  · show env.now ≤ env.now + env.settings.refreshTokenExpireDays * microsPerDay
    have hdays : 0 ≤ (env.settings.refreshTokenExpireDays : Int) * microsPerDay :=
      Int.mul_nonneg (Int.natCast_nonneg _) (by decide)
    exact Int.le_add_of_nonneg_right hdays

/-! ## Where it fails -/

/-- What a refresh leaves that finds its token. -/
inductive Refreshed (crypto : Crypto J) (env : UserEnv) (raised : Option UserError)
    (faults : List Fault) (d : UserDb) (row : RefreshToken) (user : UserRow) :
    Left UserDb UserError (Token J) → Prop
  | kept {e} : faults.headD .none ≠ .none ∨ faults.tail.headD .none = .refused →
      Refreshed crypto env raised faults d row user ⟨.error e, d⟩
  | spent {e} : faults.headD .none = .none → faults.tail.headD .none ≠ .refused →
      faults.tail.headD .none = .lost ∨ raised.isSome ∨ Collides d env row ∨
        faults.tail.tail.headD .none = .refused →
      Refreshed crypto env raised faults d row user ⟨.error e, spentDb d row⟩
  | unanswered {e hnew} : faults.headD .none = .none → faults.tail.headD .none = .none →
      raised = none → ¬ Collides d env row → faults.tail.tail.headD .none = .lost →
      Refreshed crypto env raised faults d row user ⟨.error e, mintedDb d env row user hnew⟩
  | answered {hnew} : faults.tail.headD .none = .none → raised = none → ¬ Collides d env row →
      faults.tail.tail.headD .none = .none →
      Refreshed crypto env raised faults d row user
        ⟨.ok ⟨createAccessToken crypto env user.email, env.tokenUrlsafe, user⟩,
          mintedDb d env row user hnew⟩

/-- What a refresh leaves, by the commit that fails. -/
theorem refreshed (crypto : Crypto J) (raised : Option UserError) (faults : List Fault)
    (hvalid : d.validToken env.now token = .ok (row, user))
    (huser : d.users.get user.id = some user) :
    Refreshed crypto env raised faults d row user
      (endure userStore (refreshTokenRaising crypto env raised token) faults d [] ()) := by
  have hspend : userStore.applyAll [.deleteRefreshToken row.id] d = .ok (spentDb d row) := rfl
  simp only [refreshTokenRaising, refreshAccessToken, createRefreshToken, bind, Prog.bind,
    Prog.select, Prog.ofExcept, Prog.save, Prog.commitWork, endure, hvalid]
  by_cases h₀ : faults.headD .none = .none
  · rw [if_pos h₀, List.nil_append, hspend]
    cases h₁ : faults.tail.headD .none with
    | refused => exact .kept (.inr h₁)
    | lost => exact .spent h₀ (by rw [h₁]; decide) (.inl h₁)
    | none =>
        have hgone : faults.tail.headD .none ≠ .refused := by rw [h₁]; decide
        cases raised with
        | some e => exact .spent h₀ hgone (.inr (.inl rfl))
        | none =>
            simp only [pure, Prog.bind, endure, List.nil_append]
            rw [Store.applyAll_singleton]
            by_cases hcollides : Collides d env row
            · obtain ⟨e, he⟩ := apply_mint_of_collides user hcollides
              rw [show userStore.apply (.addRefreshToken (newRefreshToken env user.id))
                (spentDb d row) = .error e from he]
              cases faults.tail.tail.headD .none <;>
                exact .spent h₀ hgone (.inr (.inr (.inl hcollides)))
            · obtain ⟨hunique, hnew⟩ := not_collides.mp hcollides
              rw [show userStore.apply (.addRefreshToken (newRefreshToken env user.id))
                (spentDb d row) = .ok (mintedDb d env row user hnew) from
                  apply_mint (by rw [huser]; rfl) hunique hnew]
              cases h₂ : faults.tail.tail.headD .none with
              | none => exact .answered h₁ rfl hcollides h₂
              | refused => exact .spent h₀ hgone (.inr (.inr (.inr h₂)))
              | lost => exact .unanswered h₀ h₁ rfl hcollides h₂
  · rw [if_neg h₀]
    exact .kept (.inl h₀)

/-- **A refresh keeps the session** unless something fails after the old token
is deleted for good: until then the old token is accepted, and then the new one
has to be stored and answered. -/
theorem keepsSession_iff (hvalid : d.validToken env.now token = .ok (row, user)) :
    KeepsSession crypto env raised faults d token ↔
      ¬ LosesSession env raised faults d token row := by
  obtain ⟨hmatching, hexpires⟩ := UserDb.validToken_eq_ok.mp hvalid
  obtain ⟨-, -, hrow, hid, -⟩ := UserDb.mem_of_validToken hvalid
  have huser : d.users.get user.id = some user := Table.get_of_mem hrow
  have hspent := matching_spentDb hmatching
  have hleft := refreshed crypto raised faults hvalid huser
  unfold KeepsSession LosesSession
  generalize endure userStore (refreshTokenRaising crypto env raised token) faults d [] () = left
    at hleft
  cases hleft with
  | kept hfault =>
      refine iff_of_true (.inl (UserDb.accepts_of_matching hmatching hexpires)) ?_
      rintro ⟨h₀, h₁, -⟩
      rcases hfault with hfault | hfault
      · exact hfault h₀
      · exact h₁ hfault
  | spent h₀ h₁ hfails =>
      refine iff_of_false ?_ (not_not.mpr ⟨h₀, h₁, ?_⟩)
      · rintro (haccepts | ⟨t, ht, -⟩)
        · exact UserDb.not_accepts_of_matching hspent haccepts
        · contradiction
      · rcases hfails with hfails | hfails | hfails | hfails
        · exact .inl hfails
        · exact .inr (.inl hfails)
        · exact .inr (.inr (.inl hfails))
        · exact .inr (.inr (.inr (.inl hfails)))
  | @unanswered e hnew h₀ h₁ hraised hcollides h₂ =>
      rw [h₁, hraised, h₂]
      have hmatch := matching_mintedDb huser hnew token
      rw [hspent, List.nil_append] at hmatch
      by_cases htoken : env.tokenUrlsafe = token
      · -- the lost token is the presented one
        have haccepts := accepts_mintedDb huser (not_collides.mp hcollides).1 hnew
        rw [htoken] at haccepts
        refine iff_of_true (.inl haccepts) ?_
        rintro ⟨-, -, hfails⟩
        simp [hcollides, htoken] at hfails
      · rw [if_neg htoken] at hmatch
        refine iff_of_false ?_ (not_not.mpr ⟨h₀, by decide, by simp [htoken]⟩)
        rintro (haccepts | ⟨t, ht, -⟩)
        · exact UserDb.not_accepts_of_matching hmatch haccepts
        · contradiction
  | @answered hnew h₁ hraised hcollides h₂ =>
      rw [h₁, hraised, h₂]
      refine iff_of_true (.inr ⟨_, rfl, accepts_mintedDb huser (not_collides.mp hcollides).1 hnew⟩) ?_
      rintro ⟨-, -, hfails⟩
      simp [hcollides] at hfails

end

/-! ## One session -/

def oldToken : RefreshToken := ⟨5, 1, "old", 10⟩

/-- The administrator has one refresh token. -/
def oneSession : UserDb := { oneUser with refreshTokens := Table.empty.insert oldToken rfl }

theorem oneSession_valid : oneSession.validToken 0 "old" = .ok (oldToken, administrator) :=
  UserDb.validToken_eq_ok.mpr ⟨rfl, by decide⟩

/-- Without a fault the new token is accepted. -/
theorem keepsSession_undisturbed :
    KeepsSession plainCrypto (drawing "new" 7) none [] oneSession "old" := by
  refine (keepsSession_iff oneSession_valid).mpr ?_
  rintro ⟨-, -, hfails⟩
  simp [Collides, oneSession, Table.empty, Table.insert, oldToken] at hfails

/-- The second commit fails: neither token is accepted. -/
theorem not_keepsSession :
    ¬ ∀ (faults : List Fault) (d : UserDb) (token : String),
      (∃ x, d.validToken 0 token = .ok x) →
        KeepsSession plainCrypto (drawing "new" 7) none faults d token := by
  intro hkeeps
  rcases hkeeps [.none, .none, .refused] oneSession "old" ⟨_, oneSession_valid⟩ with
    haccepts | ⟨t, ht, -⟩
  · exact UserDb.not_accepts_of_matching rfl haccepts
  · contradiction

end FairDrop
