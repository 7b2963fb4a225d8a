import FairDrop.Commits

/-!
# FairDrop.ProductRows

What one operation can do to one product row: to its content, its status and
its moderator.  Only the moderation operations and the edit of an active
product touch the last two.
-/

namespace FairDrop

open RowStore

/-- The part of a product that moderation is about. -/
structure Content where
  name : String
  description : Option String
  price : Price
  deriving DecidableEq

def Product.content (p : Product) : Content := ⟨p.name, p.description, p.price⟩

def Product.underModeration (p : Product) : Bool :=
  p.status = .pendingModeration ∨ p.status = .moderationInProgress

/-- What one operation can do to a product row.  An edit leaves status and
moderator alone, or sends the product back to moderation. -/
inductive Product.Step (c : Call) (p p' : Product) : Prop
  | kept (content : p'.content = p.content) (status : p'.status = p.status)
      (moderator : p'.moderatorId = p.moderatorId)
  | moved (m : Moderation) (call : c.moderation = some m) (id : m.productId = p.id)
      (allowed : m.move.allowed p.status = true) (content : p'.content = p.content)
      (status : p'.status = m.move.status)
      (moderator : p'.moderatorId = m.move.moderator p.moderatorId)
  | edited (data : ProductUpdate) (user : User) (call : c = .updateProduct p.id data user)
      (free : p.underModeration = false) (inactive : p.status ≠ .active)
      (status : p'.status = p.status) (moderator : p'.moderatorId = p.moderatorId)
  | withdrawn (data : ProductUpdate) (user : User) (call : c = .updateProduct p.id data user)
      (free : p.underModeration = false) (status : p'.status = .pendingModeration)
      (moderator : p'.moderatorId = none)

section
variable {env : Env} {alone : Bool} {c : Call} {d d' : Db}

/-- A product before and after one row was rewritten. -/
theorem row_step_set {p₀ p₁ p : Product} {id : Uuid} (hget : d.products.get p₀.id = some p₀)
    (hid : p₁.id = p₀.id) (hp : d.products.get id = some p) (hstep : p₀.Step c p₁) :
    ∃ p', (d.products.set p₁).get id = some p' ∧ p.Step c p' := by
  cases Table.get_set_cases hget hid hp with
  | inl h =>
      obtain ⟨rfl, hset⟩ := h
      exact ⟨p₁, hset, hstep⟩
  | inr hkept => exact ⟨p, hkept, .kept rfl rfl rfl⟩

theorem row_step_stock {p₀ p : Product} {q : Stock} {now : Timestamp} {id : Uuid}
    (hget : d.products.get p₀.id = some p₀) (hp : d.products.get id = some p) :
    ∃ p', (d.products.set { p₀ with qtyAvailable := q, updatedAt := now }).get id = some p' ∧
      p.Step c p' :=
  row_step_set hget rfl hp (.kept rfl rfl rfl)

/-- Moderation moves a product without touching its content. -/
theorem row_of_move {m : Move} {p p' : Product} (hs : (m.apply p).StoredAs p') :
    p'.content = p.content ∧ p'.status = m.status ∧ p'.moderatorId = m.moderator p.moderatorId := by
  have hmove : p' = { p with
      status := m.status, moderatorId := m.moderator p.moderatorId, updatedAt := p'.updatedAt } :=
    ProductObj.storedAs_move hs
  rw [hmove]
  exact ⟨rfl, rfl, rfl⟩

/-- Setting attributes from a payload touches neither status nor moderator. -/
theorem row_of_edit {p p' : Product} {data : ProductUpdate} {user : User}
    (hfree : p.underModeration = false)
    (hs : ((ProductObj.load p).edit data).StoredAs p') :
    p.Step (.updateProduct p.id data user) p' := by
  have hstatus := hs.status
  have hmoderator := hs.moderatorId
  simp only [ProductObj.edit] at hstatus hmoderator
  split at hstatus
  · next hactive =>
      rw [if_pos hactive] at hmoderator
      exact .withdrawn data user rfl hfree hstatus hmoderator
  · next hinactive =>
      rw [if_neg hinactive] at hmoderator
      exact .edited data user rfl hfree hinactive hstatus hmoderator

theorem Change.row_step (hc : Change env alone d c d') {id : Uuid} {p : Product}
    (hp : d.products.get id = some p) :
    ∃ p', d'.products.get id = some p' ∧ p.Step c p' := by
  cases hc with
  | createProduct x entry hs hnew =>
      have hkept : (d.products.insert x hnew).get id = some p := Table.get_insert_of_get hnew hp
      exact ⟨p, hkept, .kept rfl rfl rfl⟩
  | @updateProduct pid data user x x' old entry hget howner hfree hs =>
      obtain rfl : x.id = pid := Table.key_of_get hget
      have hid' : x'.id = x.id := by rw [hs.id, ProductObj.id_edit]; rfl
      have hfree' : x.underModeration = false := by simpa [Product.underModeration] using hfree
      exact row_step_set hget hid' hp (row_of_edit hfree' hs)
  | @moderate c m x x' old entry hmod hget howner hallowed hs =>
      have hid : x.id = m.productId := Table.key_of_get hget
      obtain ⟨hcontent, hstatus, hmoderator⟩ := row_of_move hs
      exact row_step_set (hid ▸ hget) hs.id hp
        (.moved m hmod hid.symm hallowed hcontent hstatus hmoderator)
  | reserveItems x q hget =>
      have hid : x.id = _ := Table.key_of_get hget
      exact row_step_stock (hid ▸ hget) hp
  | createOrder | confirmOrderPayment => exact ⟨p, hp, .kept rfl rfl rfl⟩
  | cancelOrder o r products items hget howner hstatus hr hlink hstock =>
      obtain ⟨x, q, hx, _, rfl⟩ := hstock
      have hid : x.id = r.productId := Table.key_of_get hx
      exact row_step_stock (hid ▸ hx) hp
  | releaseReservation r products orders hget hstatus hstock =>
      obtain ⟨x, q, hx, _, rfl⟩ := hstock
      have hid : x.id = r.productId := Table.key_of_get hx
      exact row_step_stock (hid ▸ hx) hp

/-- A product that an operation brings into being is a draft without a moderator. -/
theorem Change.new_row (hc : Change env alone d c d') {id : Uuid} {p' : Product}
    (hp : d.products.get id = none) (hp' : d'.products.get id = some p') :
    p'.status = .draft ∧ p'.moderatorId = none := by
  have hset : ∀ {x : Product}, (d.products.set x).get id = some p' → False := by
    intro x hsome
    have hisSome := Table.isSome_get_set (t := d.products) (r := x) (k := id)
    rw [hsome, hp] at hisSome
    contradiction
  have hsame : d.products.get id = some p' → False := by
    intro hsome
    rw [hp] at hsome
    contradiction
  cases hc with
  | createProduct x entry hs hnew =>
      change (d.products.insert x hnew).get id = some p' at hp'
      rw [Table.get_insert hnew] at hp'
      split at hp'
      · obtain rfl := Option.some.inj hp'
        exact ⟨hs.status, hs.moderatorId⟩
      · exact (hsame hp').elim
  | updateProduct | moderate | reserveItems => exact (hset hp').elim
  | createOrder | confirmOrderPayment => exact (hsame hp').elim
  | cancelOrder o r products items hget howner hstatus hr hlink hstock =>
      obtain ⟨x, q, _, _, rfl⟩ := hstock
      exact (hset hp').elim
  | releaseReservation r products orders hget hstatus hstock =>
      obtain ⟨x, q, _, _, rfl⟩ := hstock
      exact (hset hp').elim

end

end FairDrop
