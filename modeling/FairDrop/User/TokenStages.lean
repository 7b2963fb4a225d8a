import FairDrop.RowStore.Interleave
import FairDrop.User.Service

/-!
# FairDrop.User.TokenStages

The token endpoints as they run side by side.  A request has seven stages
between its statements, and `TokenStage.Next` lists what one step makes of each:
deleting and adding a refresh token are two commits, and the row to delete is
not locked.
-/

namespace FairDrop

open RowStore

/-! ## Requests -/

/-- A request that issues tokens. -/
inductive TokenCall where
  | login (username password : String)
  | refresh (token : String)
  deriving DecidableEq

def TokenCall.service {J : Type} (crypto : Crypto J) (env : UserEnv) : TokenCall → UserTx (Token J)
  | .login username password => FairDrop.login crypto env username password
  | .refresh token => FairDrop.refreshToken crypto env token

/-- The token requests of `T` at work. -/
abbrev TokenWorld (J T : Type) := Sys Unit UserDb Empty UserWrite UserError (Token J) T

/-- Nobody has begun, and no refresh token has been issued. -/
def TokenWorld.start {J T : Type} (crypto : Crypto J) (calls : T → TokenCall × UserEnv)
    (users : Table UserRow) : TokenWorld J T :=
  Sys.start { UserDb.empty with users := users } fun t =>
    (Prog.inSession ((calls t).1.service crypto (calls t).2), ())

/-! ## Stages -/

/-- How far a token request has come. -/
inductive TokenStage (J : Type) where
  | begun
  /-- The token row was read, and passed its checks. -/
  | found (row : RefreshToken) (user : UserRow)
  /-- Its `DELETE` is pending. -/
  | spending (row : RefreshToken) (user : UserRow)
  /-- Whoever asks is known, and gets a token. -/
  | granted (user : UserRow)
  /-- The `INSERT` of that token is pending. -/
  | minting (user : UserRow)
  | closing (r : Except UserError (Token J))
  | ended (r : Except UserError (Token J))

/-- The request is not at its end. -/
def TokenStage.Open {J : Type} : TokenStage J → Prop
  | .closing _ | .ended _ => False
  | _ => True

section
variable {J : Type} (crypto : Crypto J) (env : UserEnv)

/-- The response for `user`. -/
def grant (user : UserRow) : Token J :=
  ⟨createAccessToken crypto env user.email, env.tokenUrlsafe, user⟩

/-- What is left to do once the user is known. -/
def issue (user : UserRow) : UserTx (Token J) := do
  let refreshToken ← createRefreshToken env user.id
  return ⟨createAccessToken crypto env user.email, refreshToken, user⟩

/-- The end of `refresh_access_token`. -/
def commitSpent (user : UserRow) : UserTx UserRow := do
  Prog.commitWork
  return user

/-- The end of `create_refresh_token`. -/
def commitToken : UserTx String := do
  Prog.commitWork
  return env.tokenUrlsafe

/-- The process at a stage of the call `c`. -/
def TokenStage.proc (c : TokenCall) :
    TokenStage J → Proc Unit UserDb Empty UserWrite UserError (Token J)
  | .begun => ⟨Prog.inSession (c.service crypto env), [], ()⟩
  | .found row user => ⟨Prog.inSession (do
      Prog.save (.deleteRefreshToken row.id)
      let user ← commitSpent user
      issue crypto env user), [], ()⟩
  | .spending row user => ⟨Prog.inSession (do
      let user ← commitSpent user
      issue crypto env user), [.deleteRefreshToken row.id], ()⟩
  | .granted user => ⟨Prog.inSession (issue crypto env user), [], ()⟩
  | .minting user => ⟨Prog.inSession (do
      let refreshToken ← commitToken env
      return ⟨createAccessToken crypto env user.email, refreshToken, user⟩),
      [.addRefreshToken (newRefreshToken env user.id)], ()⟩
  | .closing r => ⟨Prog.inSession (Prog.ofExcept r), [], ()⟩
  | .ended r => ⟨Prog.ofExcept r, [], ()⟩

/-- What one step makes of a stage and of the database. -/
inductive TokenStage.Next (c : TokenCall) (d : UserDb) : TokenStage J → UserDb → TokenStage J → Prop
  | authenticate {username password user} (call : c = .login username password) :
      Next c d .begun d (.granted user)
  | find {token row user} (call : c = .refresh token)
      (valid : d.validToken env.now token = .ok (row, user)) :
      Next c d .begun d (.found row user)
  | fail {e} {stage : TokenStage J} (notEnded : stage.Open) : Next c d stage d (.closing (.error e))
  | delete (row user) : Next c d (.found row user) d (.spending row user)
  | spend (row user) : Next c d (.spending row user)
      { d with refreshTokens := d.refreshTokens.erase row.id } (.granted user)
  | add (user) : Next c d (.granted user) d (.minting user)
  | mint {d'} (user)
      (apply : (UserWrite.addRefreshToken (newRefreshToken env user.id)).apply d = .ok d') :
      Next c d (.minting user) d' (.closing (.ok (grant crypto env user)))
  | close (r) : Next c d (.closing r) d (.ended r)

end

/-! ## Steps -/

section
variable {J T : Type} [DecidableEq T] {crypto : Crypto J} {env : UserEnv} {c : TokenCall}
  {s s' : TokenWorld J T} {t : T} {fault : Bool} {w : Option (List UserWrite)} {stage : TokenStage J}

/-- A step that reads: it is answered from the database, or fails. -/
theorem step_read {k : Except UserError UserDb → UserTx (Token J)}
    (hprog : s.proc t = ⟨.read k, [], ()⟩) (hs : s.step userStore t fault = some (w, s')) :
    s'.db = s.db ∧ (s'.proc t = ⟨k (.ok s.db), [], ()⟩ ∨
      s'.proc t = ⟨k (.error .operationalError), [], ()⟩) := by
  simp only [Sys.step, hprog] at hs
  split at hs
  · obtain ⟨-, rfl⟩ := Prod.mk.inj (Option.some.inj hs)
    exact ⟨rfl, .inr (by simp [Sys.abort, Sys.resume, hprog, userStore])⟩
  · obtain ⟨-, rfl⟩ := Prod.mk.inj (Option.some.inj hs)
    exact ⟨rfl, .inl (by simp [Sys.resume])⟩

/-- A step that adds a pending write. -/
theorem step_write {x : UserWrite} {k : UserTx (Token J)}
    (hprog : s.proc t = ⟨.write x k, [], ()⟩) (hs : s.step userStore t fault = some (w, s')) :
    s'.db = s.db ∧ s'.proc t = ⟨k, [x], ()⟩ := by
  simp only [Sys.step, hprog] at hs
  obtain ⟨-, rfl⟩ := Prod.mk.inj (Option.some.inj hs)
  exact ⟨rfl, by simp [Sys.resume]⟩

/-- A step that commits one write: it takes effect, or nothing does. -/
theorem step_commit {x : UserWrite} {k : Except UserError Unit → UserTx (Token J)}
    (hprog : s.proc t = ⟨.commit k, [x], ()⟩) (hs : s.step userStore t fault = some (w, s')) :
    (x.apply s.db = .ok s'.db ∧ s'.proc t = ⟨k (.ok ()), [], ()⟩) ∨
      (s'.db = s.db ∧ ∃ e, s'.proc t = ⟨k (.error e), [], ()⟩) := by
  simp only [Sys.step, hprog] at hs
  split at hs
  · obtain ⟨-, rfl⟩ := Prod.mk.inj (Option.some.inj hs)
    exact .inr ⟨rfl, _, by simp [Sys.abort, Sys.resume, hprog]; rfl⟩
  · split at hs
    · next d happly =>
        obtain ⟨-, rfl⟩ := Prod.mk.inj (Option.some.inj hs)
        obtain ⟨d₁, hfirst, hrest⟩ := Store.applyAll_cons.mp happly
        obtain rfl := Store.applyAll_nil.mp hrest
        exact .inl ⟨hfirst, by simp [Sys.abort, Sys.resume, hprog]⟩
    · obtain ⟨-, rfl⟩ := Prod.mk.inj (Option.some.inj hs)
      exact .inr ⟨rfl, _, by simp [Sys.abort, Sys.resume, hprog]; rfl⟩

/-- A step that gives up the transaction. -/
theorem step_rollback {k : UserTx (Token J)} (hprog : s.proc t = ⟨.rollback k, [], ()⟩)
    (hs : s.step userStore t fault = some (w, s')) :
    s'.db = s.db ∧ s'.proc t = ⟨k, [], ()⟩ := by
  simp only [Sys.step, hprog] at hs
  obtain ⟨-, rfl⟩ := Prod.mk.inj (Option.some.inj hs)
  exact ⟨rfl, by simp [Sys.abort, Sys.resume, hprog]⟩

/-- A login reads the user, and compares the password. -/
theorem TokenStage.step_login {username password : String}
    (hproc : s.proc t = (.begun : TokenStage J).proc crypto env (.login username password))
    (hs : s.step userStore t fault = some (w, s')) :
    ∃ stage', s'.proc t = stage'.proc crypto env (.login username password) ∧
      Next crypto env (.login username password) s.db .begun s'.db stage' := by
  obtain ⟨hdb, hproc' | hproc'⟩ := step_read hproc hs
  · cases huser : s.db.userByEmail username with
    | error e =>
        refine ⟨.closing (.error e), ?_, hdb ▸ .fail trivial⟩
        rw [hproc']
        simp only [Prog.ofExcept, Prog.bind, huser]
        rfl
    | ok found =>
        cases found with
        | none =>
            refine ⟨.closing (.error .credentials), ?_, hdb ▸ .fail trivial⟩
            rw [hproc']
            simp only [Prog.ofExcept, Prog.bind, huser]
            rfl
        | some user =>
            by_cases hverify : crypto.verify password user.passwordHash
            · refine ⟨.granted user, ?_, hdb ▸ .authenticate rfl⟩
              rw [hproc']
              simp only [bind, Prog.ofExcept, Prog.bind, huser, hverify]
              rfl
            · refine ⟨.closing (.error .credentials), ?_, hdb ▸ .fail trivial⟩
              rw [hproc']
              simp only [bind, Prog.ofExcept, Prog.bind, huser, hverify]
              rfl
  · exact ⟨.closing (.error .operationalError), hproc', hdb ▸ .fail trivial⟩

/-- A refresh reads the row of its token, and checks it. -/
theorem TokenStage.step_refresh {token : String}
    (hproc : s.proc t = (.begun : TokenStage J).proc crypto env (.refresh token))
    (hs : s.step userStore t fault = some (w, s')) :
    ∃ stage', s'.proc t = stage'.proc crypto env (.refresh token) ∧
      Next crypto env (.refresh token) s.db .begun s'.db stage' := by
  obtain ⟨hdb, hproc' | hproc'⟩ := step_read hproc hs
  · cases hvalid : s.db.validToken env.now token with
    | error e =>
        refine ⟨.closing (.error e), ?_, hdb ▸ .fail trivial⟩
        rw [hproc']
        simp only [Prog.ofExcept, Prog.bind, hvalid]
        rfl
    | ok found =>
        have hnext : Next crypto env (.refresh token) s.db .begun s.db
            (.found found.1 found.2) := .find rfl hvalid
        refine ⟨.found found.1 found.2, ?_, hdb.symm ▸ hnext⟩
        rw [hproc']
        simp only [Prog.ofExcept, Prog.bind, hvalid]
        rfl
  · exact ⟨.closing (.error .operationalError), hproc', hdb ▸ .fail trivial⟩

/-- **One step** of a token request. -/
theorem TokenStage.step (hproc : s.proc t = stage.proc crypto env c)
    (hs : s.step userStore t fault = some (w, s')) :
    ∃ stage', s'.proc t = stage'.proc crypto env c ∧ Next crypto env c s.db stage s'.db stage' := by
  cases stage with
  | begun =>
      cases c with
      | login username password => exact step_login hproc hs
      | refresh token => exact step_refresh hproc hs
  | found row user =>
      obtain ⟨hdb, hproc'⟩ := step_write hproc hs
      exact ⟨.spending row user, hproc', hdb ▸ .delete row user⟩
  | spending row user =>
      obtain ⟨happly, hproc'⟩ | ⟨hdb, e, hproc'⟩ := step_commit hproc hs
      · rw [← Except.ok.inj happly]
        exact ⟨.granted user, hproc', .spend row user⟩
      · exact ⟨.closing (.error e), hproc', hdb ▸ .fail trivial⟩
  | granted user =>
      obtain ⟨hdb, hproc'⟩ := step_write hproc hs
      exact ⟨.minting user, hproc', hdb ▸ .add user⟩
  | minting user =>
      obtain ⟨happly, hproc'⟩ | ⟨hdb, e, hproc'⟩ := step_commit hproc hs
      · exact ⟨.closing (.ok _), hproc', .mint user happly⟩
      · exact ⟨.closing (.error e), hproc', hdb ▸ .fail trivial⟩
  | closing r =>
      cases r with
      | error e =>
          obtain ⟨hdb, hproc'⟩ := step_rollback hproc hs
          exact ⟨.ended (.error e), hproc', hdb ▸ .close _⟩
      | ok a =>
          obtain ⟨hdb, hproc'⟩ := step_rollback hproc hs
          exact ⟨.ended (.ok a), hproc', hdb ▸ .close _⟩
  | ended r => cases r <;> simp [Sys.step, hproc, TokenStage.proc, Prog.ofExcept] at hs

end

end FairDrop
