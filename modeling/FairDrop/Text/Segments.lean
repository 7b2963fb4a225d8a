import Mathlib.Data.List.Infix

/-!
# Segments

Texts that are made of names and a separator behind each of them.  What is left
of a text when all its leading segments are taken off does not depend on the
order in which they are taken (`Segments.rest_unique`).
-/

namespace Text

section
variable {α : Type*} {sep : α} {names : List (List α)}

theorem prefix_segment (sep : α) (b rest : List α) : b ++ [sep] <+: b ++ sep :: rest :=
  ⟨rest, (List.append_cons b sep rest).symm⟩

/-- A text begins with one name at most. -/
theorem eq_of_separator {a b rest : List α} (ha : sep ∉ a) (hb : sep ∉ b)
    (h : b ++ [sep] <+: a ++ sep :: rest) : b = a := by
  induction a generalizing b with
  | nil =>
      cases b with
      | nil => rfl
      | cons c b =>
          have hhead := (List.cons_prefix_cons.mp h).1
          rw [hhead] at hb
          exact absurd List.mem_cons_self hb
  | cons d a ih =>
      rw [List.mem_cons, not_or] at ha
      cases b with
      | nil => exact absurd (List.cons_prefix_cons.mp h).1 ha.1
      | cons c b =>
          rw [List.mem_cons, not_or] at hb
          obtain ⟨rfl, hrest⟩ := List.cons_prefix_cons.mp h
          rw [ih ha.2 hb.2 hrest]

/-- A sequence of names, each with a separator behind it. -/
inductive Segments (sep : α) (names : List (List α)) : List α → Prop
  | nil : Segments sep names []
  | cons {b w : List α} : b ∈ names → Segments sep names w → Segments sep names (b ++ sep :: w)

/-- No segment begins the text. -/
def Clean (sep : α) (names : List (List α)) (s : List α) : Prop :=
  ∀ b ∈ names, ¬ b ++ [sep] <+: s

theorem Segments.one {b : List α} (h : b ∈ names) : Segments sep names (b ++ [sep]) :=
  .cons h .nil

theorem Segments.append {w w' : List α} (h : Segments sep names w) (h' : Segments sep names w') :
    Segments sep names (w ++ w') := by
  induction h with
  | nil => exact h'
  | cons hb _ ih =>
      rw [List.append_assoc, List.cons_append]
      exact .cons hb ih

theorem Segments.flatten {parts : List (List α)} (h : ∀ w ∈ parts, Segments sep names w) :
    Segments sep names parts.flatten := by
  induction parts with
  | nil => exact .nil
  | cons w parts ih =>
      rw [List.flatten_cons]
      exact (h w List.mem_cons_self).append (ih fun w' hw' => h w' (List.mem_cons_of_mem w hw'))

/-- Only names and separators occur in segments. -/
theorem Segments.not_mem {w : List α} {c : α} (h : Segments sep names w) (hsep : c ≠ sep)
    (hnames : ∀ b ∈ names, c ∉ b) : c ∉ w := by
  induction h with
  | nil => exact List.not_mem_nil
  | cons hb _ ih =>
      rw [List.mem_append, List.mem_cons, not_or, not_or]
      exact ⟨hnames _ hb, hsep, ih⟩

theorem Clean.ne_cons {s rest b : List α} (h : Clean sep names s) (hb : b ∈ names) :
    s ≠ b ++ sep :: rest := by
  rintro rfl
  exact h b hb (prefix_segment sep b rest)

/-- **What is left is unique**: of two ways to take segments off a text until
none is left, both end at the same text. -/
theorem Segments.rest_unique {w w' s s' : List α} (hnames : ∀ b ∈ names, sep ∉ b)
    (h : Segments sep names w) (h' : Segments sep names w') (hs : Clean sep names s)
    (hs' : Clean sep names s') (heq : w ++ s = w' ++ s') : s = s' := by
  induction h generalizing w' with
  | nil =>
      cases h' with
      | nil => exact heq
      | cons hb hw' =>
          rw [List.nil_append, List.append_assoc, List.cons_append] at heq
          exact absurd heq (hs.ne_cons hb)
  | @cons b w hb hw ih =>
      rw [List.append_assoc, List.cons_append] at heq
      cases h' with
      | nil => exact absurd heq.symm (hs'.ne_cons hb)
      | @cons b' w' hb' hw' =>
          rw [List.append_assoc, List.cons_append] at heq
          -- the names end at the first separator of the text
          obtain rfl : b = b' := by
            have hprefix := prefix_segment sep b (w ++ s)
            rw [heq] at hprefix
            exact eq_of_separator (hnames b' hb') (hnames b hb) hprefix
          rw [List.append_cancel_left_eq, List.cons_inj_right] at heq
          exact ih hw' heq

end

end Text
