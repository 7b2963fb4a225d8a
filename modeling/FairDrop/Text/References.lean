import FairDrop.Text.Percent
import Mathlib.Data.List.MinMax

/-!
# Character references

What `&lt;` and `&#60;` stand for in HTML.  The names are a parameter
(`NamedRefs`), of which only one thing matters: what a reference stands for is
no longer than its name.  So only a text without references keeps its length
(`expand_eq_self`).
-/

namespace Text.Html

/-- Names as they stand behind an ampersand, with their semicolons, and what they mean. -/
structure NamedRefs where
  entries : List (List Char × List Char)
  short : ∀ e ∈ entries, e.2.length ≤ e.1.length

/-- The longest name that the text begins with. -/
def NamedRefs.longest (refs : NamedRefs) (s : List Char) : Option (List Char × List Char) :=
  (refs.entries.filter fun e => e.1.isPrefixOf s).argmax fun e => e.1.length

/-- What the code points 80 to 9F of a numeric reference mean. -/
def windows1252 : List (Nat × Nat) :=
  [(0x80, 0x20AC), (0x82, 0x201A), (0x83, 0x0192), (0x84, 0x201E), (0x85, 0x2026), (0x86, 0x2020),
    (0x87, 0x2021), (0x88, 0x02C6), (0x89, 0x2030), (0x8A, 0x0160), (0x8B, 0x2039), (0x8C, 0x0152),
    (0x8E, 0x017D), (0x91, 0x2018), (0x92, 0x2019), (0x93, 0x201C), (0x94, 0x201D), (0x95, 0x2022),
    (0x96, 0x2013), (0x97, 0x2014), (0x98, 0x02DC), (0x99, 0x2122), (0x9A, 0x0161), (0x9B, 0x203A),
    (0x9C, 0x0153), (0x9E, 0x017E), (0x9F, 0x0178)]

def codePoint (n : Nat) : Char :=
  if n = 0 ∨ ¬ n.isValidChar then '\uFFFD' else Char.ofNat ((windows1252.lookup n).getD n)

/-- The digits of a numeric reference: their character, and their length with a semicolon. -/
def digitsRef (base : Nat) (s : List Char) : Option (List Char × Nat) :=
  let digits := s.takeWhile fun c => (hexValue c).any (· < base)
  let stop := if (s.drop digits.length).head? = some ';' then 1 else 0
  if digits = [] then none
  else
    let n := digits.foldl (fun n c => base * n + (hexValue c).getD 0) 0
    some ([codePoint n], digits.length + stop)

/-- A numeric reference, from behind its `#`. -/
def numericRef : List Char → Option (List Char × Nat)
  | [] => none
  | c :: s =>
      if c = 'x' ∨ c = 'X' then (digitsRef 16 s).map fun (out, n) => (out, n + 1)
      else digitsRef 10 (c :: s)

/-- The reference behind an ampersand: what it stands for and its length.  In an
attribute a name without a semicolon is none if more of a word follows. -/
def reference (refs : NamedRefs) (inAttr : Bool) : List Char → Option (List Char × Nat)
  | [] => none
  | c :: s =>
      if c = '#' then (numericRef s).map fun (out, n) => (out, n + 1)
      else match refs.longest (c :: s) with
        | none => none
        | some (name, out) =>
            let next := ((c :: s).drop name.length).head?
            if inAttr ∧ name.getLast? ≠ some ';' ∧ next.any (fun d => d = '=' ∨ d.isAlphanum) then
              none
            else some (out, name.length)

/-! ## References in attributes -/

/-- Replace the references in what is left of an attribute after skipping some characters. -/
def expandFrom (refs : NamedRefs) : Nat → List Char → List Char
  | _, [] => []
  | skip + 1, _ :: s => expandFrom refs skip s
  | 0, c :: s =>
      if c = '&' then match reference refs true s with
        | some (out, n) => out ++ expandFrom refs n s
        | none => c :: expandFrom refs 0 s
      else c :: expandFrom refs 0 s

def expand (refs : NamedRefs) (s : List Char) : List Char := expandFrom refs 0 s

section
variable {refs : NamedRefs} {inAttr : Bool} {s out : List Char} {n : Nat}

theorem longest_spec {name : List Char} (h : refs.longest s = some (name, out)) :
    name <+: s ∧ out.length ≤ name.length := by
  have hmem := List.argmax_mem h
  rw [List.mem_filter] at hmem
  exact ⟨List.isPrefixOf_iff_prefix.mp hmem.2, refs.short _ hmem.1⟩

theorem digitsRef_spec {base : Nat} (h : digitsRef base s = some (out, n)) :
    out.length ≤ n ∧ n ≤ s.length := by
  unfold digitsRef at h
  extract_lets digits stop code at h
  split at h
  · contradiction
  · next hsome =>
      obtain ⟨rfl, rfl⟩ := Prod.mk.inj (Option.some.inj h)
      have hpos := List.length_pos_of_ne_nil hsome
      have hdigits : digits.length ≤ s.length := (List.takeWhile_sublist _).length_le
      have hstop : digits.length + stop ≤ s.length := by
        unfold stop
        split
        · next hsemicolon =>
            have hdrop := List.length_pos_of_mem (List.mem_of_mem_head? hsemicolon)
            rw [List.length_drop] at hdrop
            omega
        · exact hdigits
      exact ⟨by simp; omega, hstop⟩

theorem numericRef_spec (h : numericRef s = some (out, n)) : out.length ≤ n ∧ n ≤ s.length := by
  cases s with
  | nil => contradiction
  | cons c s =>
      rw [numericRef] at h
      split at h
      · obtain ⟨⟨_, m⟩, hdigits, heq⟩ := Option.map_eq_some_iff.mp h
        obtain ⟨rfl, rfl⟩ := Prod.mk.inj heq
        obtain ⟨hout, hm⟩ := digitsRef_spec hdigits
        rw [List.length_cons]
        omega
      · exact digitsRef_spec h

/-- A reference is longer than what it stands for. -/
theorem reference_spec (h : reference refs inAttr s = some (out, n)) :
    out.length ≤ n ∧ n ≤ s.length := by
  cases s with
  | nil => contradiction
  | cons c s =>
      rw [reference] at h
      split at h
      · obtain ⟨⟨_, m⟩, hnumeric, heq⟩ := Option.map_eq_some_iff.mp h
        obtain ⟨rfl, rfl⟩ := Prod.mk.inj heq
        obtain ⟨hout, hm⟩ := numericRef_spec hnumeric
        rw [List.length_cons]
        omega
      · split at h
        · contradiction
        · next hlongest =>
            extract_lets next at h
            split at h
            · contradiction
            · obtain ⟨rfl, rfl⟩ := Prod.mk.inj (Option.some.inj h)
              obtain ⟨hname, hout⟩ := longest_spec hlongest
              exact ⟨hout, hname.length_le⟩

theorem length_expandFrom (skip : Nat) (s : List Char) :
    (expandFrom refs skip s).length ≤ s.length - skip := by
  fun_induction expandFrom refs skip s with
  | case1 => exact Nat.zero_le _
  | case2 skip c s ih =>
      rw [List.length_cons]
      omega
  | case3 s out n href ih =>
      obtain ⟨hout, hn⟩ := reference_spec href
      rw [List.length_append, List.length_cons]
      omega
  | case4 s href ih =>
      rw [List.length_cons, List.length_cons]
      omega
  | case5 c s hplain ih =>
      rw [List.length_cons, List.length_cons]
      omega

theorem length_expand (refs : NamedRefs) (s : List Char) : (expand refs s).length ≤ s.length :=
  length_expandFrom 0 s

/-- Only a text without references keeps its length. -/
theorem expand_eq_self (h : s.length ≤ (expand refs s).length) : expand refs s = s := by
  unfold expand at h ⊢
  induction s with
  | nil => rfl
  | cons c s ih =>
      rw [expandFrom] at h ⊢
      split at h
      · split at h
        · next out n href =>
            obtain ⟨hout, hn⟩ := reference_spec href
            have hrest : (expandFrom refs n s).length ≤ s.length - n := length_expandFrom n s
            rw [List.length_append, List.length_cons] at h
            omega
        · next hampersand _ _ =>
            rw [List.length_cons, List.length_cons] at h
            rw [if_pos hampersand, ih (by omega)]
      · next hplain =>
          rw [List.length_cons, List.length_cons] at h
          rw [if_neg hplain, ih (by omega)]

theorem expand_append {front : List Char} (h : '&' ∉ front) :
    expand refs (front ++ s) = front ++ expand refs s := by
  unfold expand
  induction front with
  | nil => rfl
  | cons c front ih =>
      rw [List.mem_cons, not_or] at h
      rw [List.cons_append, expandFrom, if_neg (Ne.symm h.1), ih h.2, List.cons_append]

theorem expand_plain (h : '&' ∉ s) : expand refs s = s := by
  have happend : expand refs (s ++ []) = s ++ expand refs [] := expand_append h
  rwa [List.append_nil, expand, expand, expandFrom, List.append_nil] at happend

end

end Text.Html
