import FairDrop.Models
import FairDrop.RowStore.Program

/-!
# FairDrop.User.Models

Accounts and their credentials (`user/models.py`): the tables, the statements
that the user services issue on them, and the errors these end in.

No row is locked here.  A `DELETE` that matches no row is not an error: the ORM
only warns.
-/

namespace FairDrop

open RowStore

/-! ## Errors -/

/-- How an operation on accounts can fail. -/
inductive UserError where
  | userAlreadyExists (message : String := "")
  | credentials (message : String := "Could not validate credentials")
  | notFound (message : String := "Resource not found")
  | permissionDenied (message : String := "Permission denied")
  /-- A request or a response that its schema refuses. -/
  | validationError
  | verificationRequestAlreadyExists (message : String := "Verification request already exists")
  /-- A key, `UNIQUE` or foreign-key violation. -/
  | integrityError
  | multipleResultsFound
  | noResultFound
  /-- An `UPDATE` or refresh of a row that is gone. -/
  | staleData
  /-- The statement did not go through. -/
  | operationalError
  deriving DecidableEq, Repr

/-! ## Rows -/

structure UserRow where
  id : Uuid
  email : String
  passwordHash : String
  isActive : Bool
  isVerified : Bool
  role : UserRole
  deriving DecidableEq, Repr

structure RefreshToken where
  id : Uuid
  userId : Uuid
  token : String
  expiresAt : Timestamp
  deriving DecidableEq, Repr

structure ApiKeyB2BPartner where
  id : Uuid
  userId : Uuid
  name : String
  keyPrefix : String
  hashedKey : String
  isActive : Bool
  expiresAt : Option Timestamp
  lastUsedAt : Option Timestamp
  deriving DecidableEq, Repr

instance : Keyed UserRow Uuid := ⟨UserRow.id⟩
instance : Keyed RefreshToken Uuid := ⟨RefreshToken.id⟩
instance : Keyed ApiKeyB2BPartner Uuid := ⟨ApiKeyB2BPartner.id⟩

@[simp] theorem key_userRow (u : UserRow) : Keyed.key u = u.id := rfl
@[simp] theorem key_refreshToken (r : RefreshToken) : Keyed.key r = r.id := rfl
@[simp] theorem key_apiKey (k : ApiKeyB2BPartner) : Keyed.key k = k.id := rfl

/-! ## The database -/

structure UserDb where
  users : Table UserRow
  refreshTokens : Table RefreshToken
  apiKeys : Table ApiKeyB2BPartner

def UserDb.empty : UserDb := ⟨.empty, .empty, .empty⟩

inductive UserWrite where
  | addUser (u : UserRow)
  /-- The edit form of the admin panel: the columns of one user. -/
  | updateUser (u : UserRow)
  /-- `UPDATE users SET role, is_verified` -/
  | elevateUser (id : Uuid) (role : UserRole)
  | addRefreshToken (r : RefreshToken)
  | deleteRefreshToken (id : Uuid)
  | addApiKey (k : ApiKeyB2BPartner)
  /-- The edit form of the admin panel: the columns of one key. -/
  | updateApiKey (k : ApiKeyB2BPartner)
  /-- `UPDATE api_keys_b2b_partners SET last_used_at` -/
  | touchApiKey (id : Uuid) (now : Timestamp)
  | deleteApiKey (id : Uuid)
  deriving DecidableEq, Repr

namespace UserDb

/-- Fail with `e` unless `c` holds. -/
def require (c : Prop) [Decidable c] (e : UserError) : Except UserError Unit :=
  if c then .ok () else .error e

/-- Add a row, or report the key that is already in use. -/
def addRow {α κ : Type} [Keyed α κ] [DecidableEq κ] (t : Table α) (r : α) :
    Except UserError (Table α) :=
  match t.insert? r with
  | some t' => .ok t'
  | none => .error .integrityError

end UserDb

def UserWrite.apply : UserWrite → UserDb → Except UserError UserDb
  | .addUser u, d => do
      UserDb.require (∀ u' ∈ d.users.rows, u'.email ≠ u.email) .integrityError
      let users ← UserDb.addRow d.users u
      return { d with users := users }
  | .updateUser u, d => do
      UserDb.require (d.users.get u.id).isSome .staleData
      UserDb.require (∀ u' ∈ d.users.rows, u'.id ≠ u.id → u'.email ≠ u.email) .integrityError
      return { d with users := d.users.set u }
  | .elevateUser id role, d =>
      match d.users.get id with
      | some u => .ok { d with users := d.users.set { u with role := role, isVerified := true } }
      | none => .error .staleData
  | .addRefreshToken r, d => do
      UserDb.require (d.users.get r.userId).isSome .integrityError
      UserDb.require (∀ r' ∈ d.refreshTokens.rows, r'.token ≠ r.token) .integrityError
      let refreshTokens ← UserDb.addRow d.refreshTokens r
      return { d with refreshTokens := refreshTokens }
  | .deleteRefreshToken id, d => .ok { d with refreshTokens := d.refreshTokens.erase id }
  | .addApiKey k, d => do
      UserDb.require (d.users.get k.userId).isSome .integrityError
      let apiKeys ← UserDb.addRow d.apiKeys k
      return { d with apiKeys := apiKeys }
  | .updateApiKey k, d => do
      UserDb.require (d.apiKeys.get k.id).isSome .staleData
      UserDb.require (d.users.get k.userId).isSome .integrityError
      return { d with apiKeys := d.apiKeys.set k }
  | .touchApiKey id now, d =>
      match d.apiKeys.get id with
      | some k => .ok { d with apiKeys := d.apiKeys.set { k with lastUsedAt := some now } }
      | none => .error .staleData
  | .deleteApiKey id, d => .ok { d with apiKeys := d.apiKeys.erase id }

/-- PostgreSQL as the user services see it. -/
def userStore : Store UserDb Empty Empty UserWrite UserError where
  view := fun _ r => r
  present := fun _ => True
  apply := UserWrite.apply
  outage := .operationalError

/-- A piece of service code. -/
abbrev UserTx := Prog Unit UserDb Empty UserWrite UserError

section
variable {d d' : UserDb}

theorem except_bind_eq_ok {ε α β : Type} {x : Except ε α} {f : α → Except ε β} {b : β} :
    (x >>= f) = .ok b ↔ ∃ a, x = .ok a ∧ f a = .ok b := by
  cases x with
  | error e => simp [bind, Except.bind]
  | ok a => simp [bind, Except.bind]

theorem UserDb.require_eq_ok {c : Prop} [Decidable c] {e : UserError} {u : Unit} :
    UserDb.require c e = .ok u ↔ c := by
  unfold UserDb.require
  split <;> simp_all

theorem UserDb.addRow_eq_ok {α κ : Type} [Keyed α κ] [DecidableEq κ] {t t' : Table α} {r : α} :
    UserDb.addRow t r = .ok t' ↔ ∃ h : t.get (Keyed.key r) = none, t' = t.insert r h := by
  rw [← Table.insert?_eq_some]
  unfold UserDb.addRow
  cases h : t.insert? r <;> simp

theorem apply_addRefreshToken {r : RefreshToken}
    (h : (UserWrite.addRefreshToken r).apply d = .ok d') :
    (∀ r' ∈ d.refreshTokens.rows, r'.token ≠ r.token) ∧
      ∃ hnew : d.refreshTokens.get r.id = none,
        d' = { d with refreshTokens := d.refreshTokens.insert r hnew } := by
  simp only [UserWrite.apply, except_bind_eq_ok, UserDb.require_eq_ok, UserDb.addRow_eq_ok] at h
  obtain ⟨_, _, _, hunique, t, ⟨hnew, rfl⟩, hd⟩ := h
  exact ⟨hunique, hnew, (Except.ok.inj hd).symm⟩

/-- A token of a user, under a text and an id that no row has. -/
theorem addRefreshToken_eq_ok {r : RefreshToken} (huser : (d.users.get r.userId).isSome)
    (hunique : ∀ r' ∈ d.refreshTokens.rows, r'.token ≠ r.token)
    (hnew : d.refreshTokens.get r.id = none) : (UserWrite.addRefreshToken r).apply d =
      .ok { d with refreshTokens := d.refreshTokens.insert r hnew } := by
  simp only [UserWrite.apply, except_bind_eq_ok, UserDb.require_eq_ok, UserDb.addRow_eq_ok]
  exact ⟨(), huser, (), hunique, _, ⟨hnew, rfl⟩, rfl⟩

end

/-! ## Queries -/

/-- `scalar_one_or_none()` -/
def oneOrNone {α : Type} : List α → Except UserError (Option α)
  | [] => .ok none
  | [a] => .ok (some a)
  | _ => .error .multipleResultsFound

theorem mem_of_oneOrNone {α : Type} {l : List α} {a : α} (h : oneOrNone l = .ok (some a)) :
    a ∈ l := by
  match l with
  | [] =>
      have hnone := Except.ok.inj h
      contradiction
  | [b] =>
      obtain rfl := Option.some.inj (Except.ok.inj h)
      exact List.mem_singleton.mpr rfl
  | b :: c :: rest => contradiction

theorem nil_of_oneOrNone {α : Type} {l : List α} (h : oneOrNone l = .ok none) : l = [] := by
  match l with
  | [] => rfl
  | [a] =>
      have hsome := Except.ok.inj h
      contradiction
  | a :: b :: rest => contradiction

/-- `select(User).where(User.email == email)` -/
def UserDb.userByEmail (d : UserDb) (email : String) : Except UserError (Option UserRow) :=
  oneOrNone (d.users.rows.filter fun u => u.email = email)

theorem UserDb.mem_of_userByEmail {d : UserDb} {email : String} {u : UserRow}
    (h : d.userByEmail email = .ok (some u)) : u ∈ d.users.rows ∧ u.email = email := by
  simpa using mem_of_oneOrNone h

theorem UserDb.userByEmail_none {d : UserDb} {email : String} (h : d.userByEmail email = .ok none) :
    ∀ u ∈ d.users.rows, u.email ≠ email := by
  simpa using nil_of_oneOrNone h

end FairDrop
