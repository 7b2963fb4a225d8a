import FairDrop.Database
import FairDrop.Media.Models
import FairDrop.RowStore.Part

/-!
# FairDrop.Shop.Database

The tables of the inventory and order services together with the product
images (`media/models.py`).  The former are a part of this database
(`shopPart`), so their services run on it unchanged (`Tx.onShop`).

A product that is deleted must not be referenced any more.  The images of a
product go with it, but that is the doing of the ORM (`cascade='all,
delete-orphan'`), not of the foreign key.
-/

namespace FairDrop

open RowStore

structure ShopDb where
  db : Db
  images : Table ProductImage

def ShopDb.empty : ShopDb := ⟨.empty, .empty⟩

inductive ShopWrite where
  | base (w : Write)
  | addImage (i : ProductImage)
  | deleteImage (id : Uuid)
  | deleteProduct (id : Uuid)

/-- No row refers to the product. -/
def ShopDb.Unreferenced (d : ShopDb) (id : Uuid) : Prop :=
  (∀ r ∈ d.db.reservations.rows, r.productId ≠ id) ∧
    (∀ i ∈ d.db.orderItems.rows, i.productId ≠ id) ∧ ∀ i ∈ d.images.rows, i.productId ≠ id

instance (d : ShopDb) (id : Uuid) : Decidable (d.Unreferenced id) :=
  inferInstanceAs (Decidable (_ ∧ _ ∧ _))

def ShopWrite.apply : ShopWrite → ShopDb → Except Failure ShopDb
  | .base w, d => (w.apply d.db).map fun x => { d with db := x }
  | .addImage i, d => do
      demand (d.db.products.get i.productId).isSome .integrityError
      let images ← addRow d.images i
      return { d with images := images }
  | .deleteImage id, d => .ok { d with images := d.images.erase id }
  | .deleteProduct id, d => do
      demand (d.Unreferenced id) .integrityError
      return { d with db := { d.db with products := d.db.products.erase id } }

/-- PostgreSQL as all these services see it. -/
def shopStore : Store ShopDb Row RowVal ShopWrite Failure where
  view d := d.db.view
  present := RowVal.Present
  apply := ShopWrite.apply
  outage := .operationalError

def shopPart : Part store shopStore where
  get := ShopDb.db
  put d x := { d with db := x }
  lift := .base
  get_put := fun _ _ => rfl
  put_get := fun _ => rfl
  put_put := fun _ _ _ => rfl
  view := fun _ _ => rfl
  present := fun _ => rfl
  apply := fun _ _ => rfl
  outage := rfl

/-- A piece of service code in a session. -/
abbrev ShopTx := Prog Session ShopDb Row ShopWrite Failure

/-- The code of a service that knows nothing of images. -/
def Tx.onShop {α : Type} (x : Tx α) : ShopTx α := shopPart.run x

/-! ## What each write does -/

section
variable {d d' : ShopDb}

theorem apply_addImage {i : ProductImage} : (ShopWrite.addImage i).apply d = .ok d' ↔
    (d.db.products.get i.productId).isSome ∧ ∃ h : d.images.get i.id = none,
      d' = { d with images := d.images.insert i h } := by
  simp only [ShopWrite.apply, bind_eq_ok, pure_eq_ok, demand_eq_ok, addRow_eq_ok, key_productImage]
  constructor
  · rintro ⟨_, hproduct, t, ⟨h, rfl⟩, rfl⟩
    exact ⟨hproduct, h, rfl⟩
  · rintro ⟨hproduct, h, rfl⟩
    exact ⟨(), hproduct, _, ⟨h, rfl⟩, rfl⟩

theorem apply_deleteProduct {id : Uuid} : (ShopWrite.deleteProduct id).apply d = .ok d' ↔
    d.Unreferenced id ∧ d' = { d with db := { d.db with products := d.db.products.erase id } } := by
  simp only [ShopWrite.apply, bind_eq_ok, pure_eq_ok, demand_eq_ok]
  constructor
  · rintro ⟨_, hfree, rfl⟩
    exact ⟨hfree, rfl⟩
  · rintro ⟨hfree, rfl⟩
    exact ⟨(), hfree, rfl⟩

/-- The deletion of images touches nothing else. -/
theorem applyAll_deleteImages {ids : List Uuid}
    (h : shopStore.applyAll (ids.map .deleteImage) d = .ok d') :
    d'.db = d.db ∧ ∀ i ∈ d'.images.rows, i ∈ d.images.rows := by
  induction ids generalizing d with
  | nil =>
      obtain rfl := Store.applyAll_nil.mp h
      exact ⟨rfl, fun _ hi => hi⟩
  | cons id ids ih =>
      obtain ⟨d₁, hfirst, hrest⟩ := Store.applyAll_cons.mp h
      obtain rfl := Except.ok.inj hfirst
      obtain ⟨hdb, himages⟩ := ih hrest
      exact ⟨hdb, fun i hi => (Table.mem_erase.mp (himages i hi)).1⟩

end

end FairDrop
