import FairDrop.Inventory.Service
import FairDrop.Inventory.Internal
import FairDrop.Media.Service
import FairDrop.Shop.Database

/-!
# FairDrop.Shop.Service

The operations on products that concern their images as well: deletion
(`inventory/service.py`) and upload URLs (`media/service.py`,
`media/routes.py`).
-/

namespace FairDrop

open RowStore

/-- The images of a product. -/
def ShopDb.imagesOf (d : ShopDb) (productId : Uuid) : List ProductImage :=
  d.images.rows.filter fun i => i.productId = productId

/-- The log entry compares the product with itself: nothing has changed yet. -/
def deleteProduct (env : Env) (productId : Uuid) (currentUser : User) : ShopTx Unit := do
  let product ← (getProductForUpdate productId (some currentUser)).onShop
  let oldSnapshot ← Prog.ofExcept (ProductRead.modelValidate (.load product))
  (logProductChange env currentUser (.load product) (some oldSnapshot) "delete" none).onShop
  let d ← Prog.select
  Prog.saveAll ((d.imagesOf product.id).map fun i => .deleteImage i.id)
  Prog.save (.deleteProduct product.id)
  Prog.commitWork

/-- What is signed for a new image. -/
def presignedPost (settings : MediaSettings) (dbImage : ProductImage) (req : ImageUploadRequest) :
    PresignedPost where
  bucket := settings.minioBucketName
  key := dbImage.filePath
  contentType := req.contentType
  contentLengthRange := (settings.minFileSizeBytes, settings.maxFileSizeBytes)
  expiresIn := settings.presignedUrlExpireSeconds

/-- `create_upload_url`: whoever the current user is, the image is added. -/
def createUploadUrl (settings : MediaSettings) (env : Env) (productId : Uuid)
    (req : ImageUploadRequest) (_currentUser : User) : ShopTx PresignedPost := do
  (ensureProductExists productId).onShop
  let dbImage := newImage productId (env.uuid 0) req
  Prog.save (.addImage dbImage)
  Prog.commitWork
  return presignedPost settings dbImage req

/-- Run alone, the endpoint does what `generateUploadUrl` says. -/
theorem createUploadUrl_alone {settings : MediaSettings} {env : Env} {productId : Uuid}
    {req : ImageUploadRequest} {currentUser : User} {d : ShopDb} {s : Session} :
    let o := exec shopStore (createUploadUrl settings env productId req currentUser) [] d [] s
    match generateUploadUrl settings (d.db.products.rows.map (·.id)) d.images (env.uuid 0) productId
        req with
    | .ok (images, post) => o.value = .ok post ∧ o.db = { d with images := images }
    | .error e => o.value = .error e ∧ o.db = d := by
  have hmem : productId ∈ d.db.products.rows.map (·.id) ↔
      (d.db.products.get productId).isSome := by
    rw [Option.isSome_iff_ne_none, ne_eq, Table.get_eq_none_iff]
    simp
  have hread : exec shopStore (createUploadUrl settings env productId req currentUser) [] d [] s =
      exec shopStore ((raiseIf (d.db.products.get productId).isNone .notFound).onShop >>= fun _ => do
        Prog.save (.addImage (newImage productId (env.uuid 0) req))
        Prog.commitWork
        return presignedPost settings (newImage productId (env.uuid 0) req) req) [] d [] s := rfl
  rw [hread]
  cases hproduct : d.db.products.get productId with
  | none =>
      have hmissing : productId ∉ d.db.products.rows.map (·.id) := by simp [hmem, hproduct]
      simp only [generateUploadUrl, hmissing, not_false_eq_true, if_true]
      exact ⟨rfl, rfl⟩
  | some p =>
      have hfound : productId ∈ d.db.products.rows.map (·.id) := by simp [hmem, hproduct]
      obtain ⟨image, himage⟩ : ∃ image, newImage productId (env.uuid 0) req = image := ⟨_, rfl⟩
      have hcommit : exec shopStore ((raiseIf (some p).isNone .notFound).onShop >>= fun _ => do
          Prog.save (.addImage image)
          Prog.commitWork
          return presignedPost settings image req) [] d [] s =
          exec shopStore (.commit fun x => Prog.ofExcept x >>= fun _ =>
            pure (presignedPost settings image req)) [] d [.addImage image] s := rfl
      simp only [generateUploadUrl, hfound, not_true_eq_false, if_false, himage]
      rw [hcommit]
      cases hinsert : d.images.insert? image with
      | some images =>
          have happly : shopStore.applyAll [.addImage image] d =
              .ok { d with images := images } := by
            obtain ⟨hnew, rfl⟩ := Table.insert?_eq_some.mp hinsert
            rw [Store.applyAll_cons]
            refine ⟨_, apply_addImage.mpr ⟨?_, hnew, rfl⟩, rfl⟩
            simp [← himage, newImage, hproduct]
          exact exec_commit_ok rfl happly
      | none =>
          have happly : shopStore.applyAll [.addImage image] d = .error .integrityError := by
            have hexists : (d.db.products.get image.productId).isSome := by
              simp [← himage, newImage, hproduct]
            have hadd : addRow d.images image = .error .integrityError := by simp [addRow, hinsert]
            rw [Store.applyAll]
            simp only [shopStore, ShopWrite.apply, demand, hexists, if_true, hadd]
            rfl
          rw [exec_commit_error rfl happly]
          exact ⟨rfl, rfl⟩

end FairDrop
