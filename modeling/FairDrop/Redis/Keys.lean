import Mathlib.Logic.Function.Basic

/-!
# Keys with an expiry

The part of Redis that counters need: integer values under keys, each with an
optional moment, on the clock of the server, at which the key is removed.  A key
whose moment has come is not there for any command, so it does not matter when
its entry is dropped.
-/

namespace Redis

structure Entry where
  value : Int
  expiry : Option Int
  deriving DecidableEq, Repr

/-- Whether the entry is still there at `now`. -/
def Entry.live (e : Entry) (now : Int) : Bool := e.expiry.all (now < ·)

variable {κ : Type}

/-- The entries, those that have expired among them. -/
abbrev Store (κ : Type) := κ → Option Entry

namespace Store

def empty : Store κ := fun _ => none

/-- The entry of a key at `now`, if the key is there. -/
def entry (s : Store κ) (now : Int) (k : κ) : Option Entry := (s k).filter (·.live now)

/-- `GET` -/
def get (s : Store κ) (now : Int) (k : κ) : Option Int := (s.entry now k).map (·.value)

section
variable [DecidableEq κ]

/-- `INCR`: a key that is not there starts at zero, without an expiry. -/
def incr (s : Store κ) (now : Int) (k : κ) : Store κ :=
  Function.update s k <| some <| match s.entry now k with
    | none => ⟨1, none⟩
    | some e => { e with value := e.value + 1 }

/-- `EXPIRE` -/
def expire (s : Store κ) (now : Int) (k : κ) (ttl : Int) : Store κ :=
  match s.entry now k with
  | none => s
  | some e => Function.update s k (some { e with expiry := some (now + ttl) })

end

/-! ## Reading -/

variable {s : Store κ} {now : Int} {k k' : κ} {e : Entry}

theorem entry_eq_some : s.entry now k = some e ↔ s k = some e ∧ e.live now := by
  simp [entry, Option.filter_eq_some_iff]

/-- A key is absent if it was never written, or its time has come. -/
theorem entry_eq_none :
    s.entry now k = none ↔ ∀ e, s k = some e → ∃ t, e.expiry = some t ∧ t ≤ now := by
  cases h : s k with
  | none => simp [entry, h]
  | some e =>
      obtain ⟨n, expiry⟩ := e
      cases expiry <;> simp [entry, h, Entry.live]

theorem get_eq_none : s.get now k = none ↔ s.entry now k = none := by simp [get]

theorem get_of_entry (h : s.entry now k = some e) : s.get now k = some e.value := by
  simp [get, h]

/-! ## Writing -/

variable [DecidableEq κ]

@[simp] theorem incr_of_ne (h : k' ≠ k) : s.incr now k k' = s k' := by
  rw [incr, Function.update_of_ne h]

theorem incr_of_absent (h : s.entry now k = none) : s.incr now k k = some ⟨1, none⟩ := by
  simp [incr, h]

theorem incr_of_entry (h : s.entry now k = some e) :
    s.incr now k k = some { e with value := e.value + 1 } := by
  simp [incr, h]

theorem incr_congr {s' : Store κ} (h : s k = s' k) : s.incr now k k = s'.incr now k k := by
  simp [incr, entry, h]

@[simp] theorem expire_of_ne {ttl : Int} (h : k' ≠ k) : s.expire now k ttl k' = s k' := by
  unfold expire
  cases s.entry now k with
  | none => rfl
  | some e => exact Function.update_of_ne h _ _

/-- What becomes of a key depends on its own entry only. -/
theorem expire_congr {s' : Store κ} {ttl : Int} (h : s k = s' k) :
    s.expire now k ttl k = s'.expire now k ttl k := by
  have hentry : s.entry now k = s'.entry now k := by rw [entry, entry, h]
  unfold expire
  rw [hentry]
  cases s'.entry now k with
  | none => exact h
  | some e => simp

/-- A key that was just created can be given an expiry. -/
theorem expire_of_fresh {ttl : Int} {n : Int} (h : s k = some ⟨n, none⟩) :
    s.expire now k ttl k = some ⟨n, some (now + ttl)⟩ := by
  have hentry : s.entry now k = some ⟨n, none⟩ := entry_eq_some.mpr ⟨h, rfl⟩
  simp [expire, hentry]

end Store

end Redis
