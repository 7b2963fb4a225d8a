import FairDrop.Dashboards
import FairDrop.Shop.Database

/-!
# FairDrop.Inventory.Paging

The catalogue, page by page (`get_products`).  The query has a `LIMIT` but no
`ORDER BY`, so each page is cut out of an order of its own: the pages cover the
catalogue for sure only if it fits on the first (`pagesCover_iff`).
-/

namespace FairDrop

open RowStore Query

/-! ## The listing -/

/-- A product with `images` loaded. -/
structure ListedProduct where
  product : Product
  images : List ProductImage
  deriving DecidableEq

/-- The orders in which an execution of the query answers: of the products, of
which it cuts a page out, and of the page joined with the images. -/
structure ListingScans where
  products : Scan Product
  rows : Scan (Product × Option ProductImage)

namespace ShopDb

/-- What a call returns on this database when nobody else writes to it. -/
def answer {α : Type} (d : ShopDb) (x : ShopTx α) : Except Failure α :=
  (exec shopStore x [] d [] .fresh).value

/-- The products with a status, or all. -/
def matching (d : ShopDb) (status : Option ProductStatus) : List Product :=
  d.db.products.rows.filter fun p => status = none ∨ status = some p.status

/-- They are those that the query selects. -/
theorem filter_selected (d : ShopDb) (status : Option ProductStatus) :
    (d.db.products.rows.filter fun p => Selected status p.status) = d.matching status :=
  List.filter_congr fun _ _ => decide_eq_decide.mpr selected_iff

end ShopDb

namespace Listing

/-- `result.scalars().unique().all()`: an object for each product, with the images
of all its rows. -/
def collect (rows : List (Product × Option ProductImage)) : List ListedProduct :=
  (unique Product.id (rows.map Prod.fst)).map fun p => ⟨p, partners Product.id p.id rows⟩

/-- `get_products`: the ORM puts `LIMIT` and `OFFSET` on a subquery of the products
and joins their images to that. -/
def getProducts (scans : ListingScans) (status : Option ProductStatus) (skip limit : Nat) :
    ShopTx (List ListedProduct) := do
  let d ← Prog.select
  let products := productPage scans.products status skip limit d.db
  let rows := scans.rows.val
    (leftJoin products d.images.rows fun product image => image.productId = product.id)
  return collect rows

/-! ## One page -/

section
variable {d : ShopDb} {status : Option ProductStatus} {skip limit : Nat}

/-- The query cuts its page out of an order of the matching products. -/
theorem productPage_eq (scan : Scan Product) : productPage scan status skip limit d.db =
    page skip limit (scan.val (d.matching status)) := by
  rw [productPage, d.filter_selected]

theorem nodup_matching : ((d.matching status).map Product.id).Nodup :=
  d.db.products.nodup.sublist (List.filter_sublist.map _)

theorem nodup_productPage (scan : Scan Product) :
    ((productPage scan status skip limit d.db).map Product.id).Nodup := by
  rw [productPage_eq]
  exact (((scan.property _).map _).nodup_iff.mpr nodup_matching).sublist (page_sublist.map _)

theorem collect_perm {products : List Product} {images : List ProductImage}
    (hids : (products.map Product.id).Nodup) (scan : Scan (Product × Option ProductImage)) :
    ((collect (scan.val (leftJoin products images fun product image =>
      image.productId = product.id))).map ListedProduct.product).Perm products := by
  rw [collect, List.map_map]
  refine (List.Perm.of_eq (List.map_id _)).trans (unique_perm hids fun x => ?_)
  rw [((scan.property _).map Prod.fst).mem_iff, mem_fst_leftJoin]

theorem images_collect {products : List Product} {images : List ProductImage}
    (hids : (products.map Product.id).Nodup) (scan : Scan (Product × Option ProductImage))
    {x : ListedProduct} (hx : x ∈ collect (scan.val (leftJoin products images
      fun product image => image.productId = product.id))) :
    x.images.Perm (images.filter fun image => image.productId = x.product.id) := by
  obtain ⟨p, hp, rfl⟩ := List.mem_map.mp hx
  have hmem : p ∈ products := by
    rw [← mem_fst_leftJoin, ← ((scan.property _).map Prod.fst).mem_iff]
    exact subset_unique hp
  refine ((scan.property _).filterMap _).trans ?_
  exact List.Perm.of_eq (partners_leftJoin hids hmem)

/-- A page lists products of one order of the matching ones, each with its images. -/
theorem answer_getProducts (d : ShopDb) (status : Option ProductStatus) (skip limit : Nat)
    (scans : ListingScans) : ∃ products,
    d.answer (getProducts scans status skip limit) = .ok products ∧
      (products.map ListedProduct.product).Perm
        (page skip limit (scans.products.val (d.matching status))) ∧
      ∀ x ∈ products,
        x.images.Perm (d.images.rows.filter fun image => image.productId = x.product.id) := by
  have hids : ((productPage scans.products status skip limit d.db).map Product.id).Nodup :=
    nodup_productPage scans.products
  rw [← productPage_eq]
  exact ⟨_, rfl, collect_perm hids scans.rows, fun _ hx => images_collect hids scans.rows hx⟩

/-- With the images left out it is the listing of the products alone. -/
theorem getProducts_plain (scans : ListingScans) : ∃ products plain,
    d.answer (getProducts scans status skip limit) = .ok products ∧
      d.db.answer (FairDrop.getProducts scans.products status skip limit) = .ok plain ∧
      (products.map ListedProduct.product).Perm plain := by
  obtain ⟨products, hok, hperm, -⟩ := answer_getProducts d status skip limit scans
  exact ⟨products, _, hok, rfl, hperm.trans (List.Perm.of_eq (productPage_eq _).symm)⟩

end

end Listing

/-! ## All pages -/

section
variable {d : ShopDb} {status : Option ProductStatus} {n : Nat}

/-- Whoever asks for the pages of `n` products one after the other gets each
matching product once, and full pages up to the last.  Execution `k` answers in the
orders `scans k`. -/
def PagesCover (d : ShopDb) (status : Option ProductStatus) (n : Nat)
    (scans : Nat → ListingScans) : Prop :=
  ∃ pages : Nat → List ListedProduct,
    (∀ k, d.answer (Listing.getProducts (scans k) status (k * n) n) = .ok (pages k)) ∧
    (∀ k, (k + 1) * n ≤ (d.matching status).length → (pages k).length = n) ∧
    ∀ m, (d.matching status).length ≤ m * n →
      (((List.range m).flatMap pages).map ListedProduct.product).Perm (d.matching status)

/-- The pages of `n` as the executions cut them out. -/
theorem exists_pages (d : ShopDb) (status : Option ProductStatus) (n : Nat)
    (scans : Nat → ListingScans) : ∃ pages : Nat → List ListedProduct,
    (∀ k, d.answer (Listing.getProducts (scans k) status (k * n) n) = .ok (pages k)) ∧
    ∀ k, ((pages k).map ListedProduct.product).Perm
      (page (k * n) n ((scans k).products.val (d.matching status))) := by
  choose pages hok hperm himages using fun k =>
    Listing.answer_getProducts d status (k * n) n (scans k)
  exact ⟨pages, hok, hperm⟩

/-- Pages that are cut out of one order cover it. -/
theorem pagesCover_of_order (scans : Nat → ListingScans) (scan : Scan Product)
    (h : ∀ k, page (k * n) n ((scans k).products.val (d.matching status)) =
      page (k * n) n (scan.val (d.matching status))) : PagesCover d status n scans := by
  obtain ⟨pages, hok, hperm⟩ := exists_pages d status n scans
  refine ⟨pages, hok, fun k hk => ?_, fun m hm => ?_⟩
  · rw [← List.length_map ListedProduct.product, (hperm k).length_eq, length_page,
      ((scans k).products.property _).length_eq]
    rw [Nat.succ_mul] at hk
    omega
  · rw [List.map_flatMap]
    refine (List.Perm.flatMap_left _ fun k _ => (hperm k).trans (List.Perm.of_eq (h k))).trans ?_
    rw [flatMap_page, List.take_of_length_le ((scan.property _).length_eq.trans_le hm)]
    exact scan.property _

/-- The second execution moves the products of the second page to the front. -/
def secondRotated (n : Nat) (k : Nat) : ListingScans where
  products := if k = 1 then ⟨fun l => l.rotate (l.length - n), fun l => l.rotate_perm _⟩ else asStored
  rows := asStored

/-- Then the first product is on both pages. -/
theorem not_pagesCover_rotated (hn : 0 < n) (hcount : n < (d.matching status).length) :
    ¬ PagesCover d status n (secondRotated n) := by
  rintro ⟨pages, hok, -, hcover⟩
  obtain ⟨pages', hok', hperm⟩ := exists_pages d status n (secondRotated n)
  obtain rfl : pages = pages' := funext fun k => Except.ok.inj ((hok k).symm.trans (hok' k))
  have hm := hcover (d.matching status).length (Nat.le_mul_of_pos_right _ hn)
  have hnodup := hm.nodup_iff.mpr Listing.nodup_matching.of_map
  rw [List.map_flatMap] at hnodup
  have hzero := hperm 0
  have hone := hperm 1
  cases hmatching : d.matching status with
  | nil =>
      rw [hmatching] at hcount
      exact absurd hcount (Nat.not_lt_zero n)
  | cons p rest =>
      rw [hmatching] at hcount hzero hone
      have hfirst : p ∈ (pages 0).map ListedProduct.product := by
        refine hzero.mem_iff.mpr ?_
        obtain ⟨k, rfl⟩ := Nat.exists_eq_add_one_of_ne_zero hn.ne'
        simp [page, secondRotated, asStored]
      have hsecond : p ∈ (pages 1).map ListedProduct.product := by
        refine hone.mem_iff.mpr ?_
        rw [Nat.one_mul]
        exact mem_page_rotate hn hcount
      refine not_nodup_pages (i := 0) (j := 1) ?_ ?_ Nat.zero_ne_one hfirst hsecond hnodup
      · rw [hmatching]
        exact Nat.lt_of_le_of_lt (Nat.zero_le n) hcount
      · rw [hmatching]
        exact Nat.lt_of_le_of_lt hn hcount

/-- **Paging covers the catalogue** for sure only if the catalogue is one page, or
while every execution answers in the same order. -/
theorem pagesCover_iff (d : ShopDb) (status : Option ProductStatus) (hn : 0 < n) :
    ((∀ scans, PagesCover d status n scans) ↔ (d.matching status).length ≤ n) ∧
      ∀ scans : Nat → ListingScans, (∀ k, (scans k).products = (scans 0).products) →
        PagesCover d status n scans := by
  refine ⟨⟨fun hcover => ?_, fun hcount scans => ?_⟩, fun scans hsame => ?_⟩
  · by_contra hcount
    exact not_pagesCover_rotated hn (Nat.lt_of_not_le hcount) (hcover _)
  · refine pagesCover_of_order scans (scans 0).products fun k => ?_
    cases k with
    | zero => rfl
    | succ k =>
        -- nothing is left after the first page
        have hskip : (d.matching status).length ≤ (k + 1) * n :=
          hcount.trans (Nat.le_mul_of_pos_left n k.succ_pos)
        rw [page, page, List.drop_of_length_le, List.drop_of_length_le]
        · exact ((scans 0).products.property _).length_eq.trans_le hskip
        · exact ((scans (k + 1)).products.property _).length_eq.trans_le hskip
  · exact pagesCover_of_order scans (scans 0).products fun k => by rw [hsame k]

end

/-! ## Two products, a page each -/

/-- A lamp with two pictures, a chair, and a sofa that is a draft. -/
def deskShop : ShopDb where
  db := lampsDb
  images := ⟨[⟨31, 1, "products/1/front.png", .active⟩, ⟨32, 1, "products/1/back.png", .active⟩],
    by simp⟩

/-- The page with the lamp. -/
def lampPage : List ListedProduct :=
  (deskProducts.rows.take 1).map fun p => ⟨p, deskShop.images.rows⟩

/-- They fit on a page of two. -/
theorem pagesCover_desk : (deskShop.matching (some .active)).length = 2 ∧
    ∀ scans, PagesCover deskShop (some .active) 2 scans :=
  ⟨by decide, (pagesCover_iff deskShop (some .active) (by decide)).1.mpr (by decide)⟩

/-- On pages of one the lamp comes twice, and the chair never. -/
theorem not_pagesCover : ¬ ∀ (d : ShopDb) (status : Option ProductStatus) (n : Nat), 0 < n →
    ∀ scans, PagesCover d status n scans := by
  intro hall
  obtain ⟨pages, hok, -, hcover⟩ := hall deskShop (some .active) 1 (by decide) (secondRotated 1)
  have hzero : pages 0 = lampPage := Except.ok.inj ((hok 0).symm.trans rfl)
  have hone : pages 1 = lampPage := Except.ok.inj ((hok 1).symm.trans rfl)
  have hperm := hcover 2 (by decide)
  rw [show (List.range 2).flatMap pages = pages 0 ++ (pages 1 ++ []) from rfl, hzero, hone] at hperm
  exact absurd hperm (by decide)

end FairDrop
