import FairDrop.Models

/-!
# FairDrop.Security

Ownership checks, and the roles that routes ask for (`core/security.py`).
-/

namespace FairDrop

/-- The attributes of an object that can name its owner. -/
structure Owned where
  ownerId : Option Uuid
  userId : Option Uuid

def Product.owned (p : Product) : Owned := ⟨some p.ownerId, none⟩

def Order.owned (o : Order) : Owned := ⟨none, some o.userId⟩

/-- Admins and moderators pass the ownership check on everything. -/
def User.isStaff (user : User) : Bool := user.role = .admin ∨ user.role = .moderator

/-- `RoleChecker(allowed_roles)`, which does not ask for verification. -/
def User.hasRole (user : User) (allowedRoles : List UserRole) : Bool :=
  user.role = .admin ∨ user.role ∈ allowedRoles

def checkOwnership (user : User) (obj : Owned) : Except Failure Unit :=
  if user.isStaff then .ok ()
  else match obj.ownerId, obj.userId with
    | some owner, _ | none, some owner =>
        if owner ≠ user.id then .error .permissionDenied else .ok ()
    | none, none => .error .valueError

/-- Whoever passes the check on a product is staff or its owner. -/
theorem checkOwnership_product {user : User} {p : Product} :
    checkOwnership user p.owned = .ok () ↔ user.isStaff ∨ p.ownerId = user.id := by
  simp only [checkOwnership, Product.owned]
  split
  · next h => simp [h]
  · next h => split <;> simp_all

/-- Who has a role of the staff is staff. -/
theorem isStaff_of_hasRole {user : User} (h : user.hasRole [.admin, .moderator]) : user.isStaff := by
  revert h
  unfold User.hasRole User.isStaff
  cases user.role <;> simp

theorem checkOwnership_order {user : User} {o : Order} :
    checkOwnership user o.owned = .ok () ↔ user.isStaff ∨ o.userId = user.id := by
  simp only [checkOwnership, Order.owned]
  split
  · next h => simp [h]
  · next h => split <;> simp_all

instance (user : User) (o : Order) : Decidable (checkOwnership user o.owned = .ok ()) :=
  decidable_of_iff _ checkOwnership_order.symm

end FairDrop
