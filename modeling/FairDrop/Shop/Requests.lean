import FairDrop.Shop.Actors

/-!
# FairDrop.Shop.Requests

The endpoints that change products, reservations, orders and images
(`inventory/routes.py`, `orders/routes.py`, `media/routes.py`), with the roles
that their `RoleChecker`s ask for.
-/

namespace FairDrop

inductive ShopEndpoint where
  | createProduct (productData : ProductCreate)
  | activateProduct (productId : Uuid)
  | updateProduct (productId : Uuid) (productData : ProductUpdate)
  | deleteProduct (productId : Uuid)
  | reservationData (idempotencyKey : String) (reservationData : ReservationCreate)
  | submitForModeration (productId : Uuid)
  | approveProduct (productId : Uuid)
  | rejectProduct (productId : Uuid) (reason : String)
  | claimForModeration (productId : Uuid)
  | createOrder (orderData : OrderCreate)
  | getOrderDetails (orderId : Uuid)
  | confirmOrderPayment (orderId : Uuid)
  | cancelOrder (orderId : Uuid)
  | createUploadUrl (settings : MediaSettings) (productId : Uuid) (req : ImageUploadRequest)

namespace ShopEndpoint

def sellerDependency : List UserRole := [.seller, .sellerB2b]

def adminDependency : List UserRole := [.admin, .moderator]

def adminAndSellerDependency : List UserRole := [.admin, .moderator, .seller, .sellerB2b]

/-- The roles that an endpoint asks for; some ask for a login only. -/
def allowedRoles : ShopEndpoint → Option (List UserRole)
  | .createProduct _ | .submitForModeration _ => some sellerDependency
  | .updateProduct _ _ => some adminAndSellerDependency
  | .activateProduct _ | .deleteProduct _ | .approveProduct _ | .rejectProduct _ _
  | .claimForModeration _ => some adminDependency
  | .reservationData _ _ | .createOrder _ | .getOrderDetails _ | .confirmOrderPayment _
  | .cancelOrder _ | .createUploadUrl _ _ _ => none

/-- What an endpoint asks of the services. -/
def actor (currentUser : User) (env : Env) : ShopEndpoint → ShopActor
  | .createProduct data => .shop (.request (.createProduct currentUser.id data currentUser) env)
  | .activateProduct id => .shop (.request (.changeStatus id .active currentUser) env)
  | .updateProduct id data => .shop (.request (.updateProduct id data currentUser) env)
  | .deleteProduct id => .deleteProduct id currentUser env
  | .reservationData key data => .shop (.request (.reserveItems currentUser.id key data) env)
  | .submitForModeration id => .shop (.request (.submitForModeration id currentUser) env)
  | .approveProduct id => .shop (.request (.approveProduct id currentUser) env)
  | .rejectProduct id reason => .shop (.request (.rejectProduct id currentUser reason) env)
  | .claimForModeration id => .shop (.request (.claimForModeration id currentUser) env)
  | .createOrder data => .shop (.request (.createOrder currentUser data) env)
  | .getOrderDetails id => .orderDetails id currentUser env
  | .confirmOrderPayment id => .shop (.request (.confirmOrderPayment id currentUser) env)
  | .cancelOrder id => .shop (.request (.cancelOrder id currentUser) env)
  | .createUploadUrl settings id req => .createUploadUrl settings id req currentUser env

end ShopEndpoint

/-- A request that has come through the dependencies of its endpoint. -/
structure ShopRequest where
  endpoint : ShopEndpoint
  currentUser : User
  env : Env
  admitted : ∀ roles, endpoint.allowedRoles = some roles → currentUser.hasRole roles

def ShopRequest.actor (q : ShopRequest) : ShopActor := q.endpoint.actor q.currentUser q.env

/-- Nobody but the staff gets to an endpoint of the staff. -/
theorem ShopRequest.isStaff (q : ShopRequest)
    (h : q.endpoint.allowedRoles = some ShopEndpoint.adminDependency) : q.currentUser.isStaff :=
  isStaff_of_hasRole (q.admitted _ h)

end FairDrop
