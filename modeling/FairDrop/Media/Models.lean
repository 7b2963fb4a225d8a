import FairDrop.Models

/-!
# FairDrop.Media.Models

Product images (`media/models.py`) and the bodies of the media requests
(`media/schemas.py`).
-/

namespace FairDrop

open RowStore

/-! ## Rows -/

inductive ImageStatus where
  | pending | active | inactive | failed
  deriving DecidableEq, Repr

structure ProductImage where
  id : Uuid
  productId : Uuid
  filePath : String
  status : ImageStatus
  deriving DecidableEq, Repr

instance : Keyed ProductImage Uuid := ⟨ProductImage.id⟩

@[simp] theorem key_productImage (i : ProductImage) : Keyed.key i = i.id := rfl

/-! ## Bodies -/

structure ImageUploadRequest where
  filename : String
  contentType : String
  deriving DecidableEq, Repr

/-- A record of a MinIO event: what happened, and the encoded key of the object. -/
structure S3Record where
  eventName : String
  key : String
  deriving DecidableEq, Repr

structure MinioWebhookEvent where
  records : List S3Record

/-! ## Texts of ids -/

def hexText : Nat → Nat → List Char
  | 0, _ => []
  | width + 1, n => hexText width (n / 16) ++ [Nat.digitChar (n % 16)]

/-- `str(id)`: 32 hexadecimal digits in groups of 8, 4, 4, 4 and 12. -/
def uuidText (id : Uuid) : List Char :=
  let digits := hexText 32 id
  digits.take 8 ++ '-' :: (digits.drop 8).take 4 ++ '-' :: (digits.drop 12).take 4 ++
    '-' :: (digits.drop 16).take 4 ++ '-' :: digits.drop 20

theorem alphanum_hexText (width n : Nat) : ∀ c ∈ hexText width n, c.isAlphanum := by
  induction width generalizing n with
  | zero => simp [hexText]
  | succ width ih =>
      intro c hc
      rw [hexText, List.mem_append, List.mem_singleton] at hc
      cases hc with
      | inl hfront => exact ih _ c hfront
      | inr hlast =>
          subst hlast
          have hdigits : ∀ m < 16, (Nat.digitChar m).isAlphanum := by decide
          exact hdigits _ (Nat.mod_lt _ (by omega))

theorem length_hexText (width n : Nat) : (hexText width n).length = width := by
  induction width generalizing n with
  | zero => rfl
  | succ width ih => rw [hexText, List.length_append, ih, List.length_singleton]

theorem digitChar_inj {m n : Nat} (hm : m < 16) (hn : n < 16)
    (h : Nat.digitChar m = Nat.digitChar n) : m = n := by
  have hdigits : ∀ a < 16, ∀ b < 16, Nat.digitChar a = Nat.digitChar b → a = b := by decide
  exact hdigits m hm n hn h

/-- A number of `width` digits is read off them. -/
theorem hexText_inj {width m n : Nat} (hm : m < 16 ^ width) (hn : n < 16 ^ width)
    (h : hexText width m = hexText width n) : m = n := by
  induction width generalizing m n with
  | zero =>
      rw [Nat.pow_zero] at hm hn
      omega
  | succ width ih =>
      rw [hexText, hexText] at h
      obtain ⟨hfront, hlast⟩ := List.append_inj' h rfl
      have hquotient : m / 16 = n / 16 := by
        rw [Nat.pow_succ] at hm hn
        exact ih (by omega) (by omega) hfront
      have hdigit : m % 16 = n % 16 :=
        digitChar_inj (by omega) (by omega) (List.singleton_inj.mp hlast)
      omega

/-- An id is written with letters, digits and dashes. -/
theorem mem_uuidText {id : Uuid} {c : Char} (h : c ∈ uuidText id) : c.isAlphanum ∨ c = '-' := by
  have hdigit : ∀ {k : List Char}, k.Sublist (hexText 32 id) → c ∈ k → c.isAlphanum :=
    fun hsub hc => alphanum_hexText 32 id c (hsub.subset hc)
  simp only [uuidText, List.append_assoc, List.cons_append, List.mem_append, List.mem_cons] at h
  rcases h with h | h | h | h | h | h | h | h | h
  · exact .inl (hdigit (List.take_sublist _ _) h)
  · exact .inr h
  · exact .inl (hdigit ((List.take_sublist _ _).trans (List.drop_sublist _ _)) h)
  · exact .inr h
  · exact .inl (hdigit ((List.take_sublist _ _).trans (List.drop_sublist _ _)) h)
  · exact .inr h
  · exact .inl (hdigit ((List.take_sublist _ _).trans (List.drop_sublist _ _)) h)
  · exact .inr h
  · exact .inl (hdigit (List.drop_sublist _ _) h)

theorem length_uuidText (id : Uuid) : (uuidText id).length = 36 := by
  simp [uuidText, length_hexText]

/-- The digits of an id are what is left of its text without the dashes. -/
theorem filter_uuidText (id : Uuid) : (uuidText id).filter (· ≠ '-') = hexText 32 id := by
  have hdigits : (hexText 32 id).filter (· ≠ '-') = hexText 32 id := by
    refine List.filter_eq_self.mpr fun c hc => decide_eq_true ?_
    rintro rfl
    exact absurd (alphanum_hexText 32 id '-' hc) (by decide)
  have hgroups : (uuidText id).filter (· ≠ '-') = ((hexText 32 id).take 8 ++
      ((hexText 32 id).drop 8).take 4 ++ ((hexText 32 id).drop 12).take 4 ++
      ((hexText 32 id).drop 16).take 4 ++ (hexText 32 id).drop 20).filter (· ≠ '-') := by
    simp [uuidText]
  have hjoin : (hexText 32 id).take 8 ++ ((hexText 32 id).drop 8).take 4 ++
      ((hexText 32 id).drop 12).take 4 ++ ((hexText 32 id).drop 16).take 4 ++
      (hexText 32 id).drop 20 = hexText 32 id := by
    rw [← List.take_add, ← List.take_add, ← List.take_add, List.take_append_drop]
  rw [hgroups, hjoin, hdigits]

theorem uuidText_inj {id id' : Uuid} (hid : id < 2 ^ 128) (hid' : id' < 2 ^ 128)
    (h : uuidText id = uuidText id') : id = id' := by
  have hdigits : hexText 32 id = hexText 32 id' := by rw [← filter_uuidText, h, filter_uuidText]
  exact hexText_inj (by omega) (by omega) hdigits

end FairDrop
