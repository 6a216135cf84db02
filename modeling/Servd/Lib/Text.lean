import Mathlib.Data.List.DropRight
import Mathlib.Data.List.Induction
import Mathlib.Data.List.TakeWhile

/-!
Texts: the lines of a file, the first separator of a line, and trimming. The letters are of
any type; what counts as white space is a parameter. Every operation comes with the lemma
that reads back what was written.
-/
namespace Servd.Text

variable {α : Type}

section Lines

variable [DecidableEq α] (sep : α)

/-- The lines that `std::getline` returns, one after the other. The last one need not be ended by
the separator. -/
def lines : List α → List (List α)
  | [] => []
  | b :: rest =>
      if b = sep then [] :: lines rest
      else
        match lines rest with
        | [] => [[b]]
        | line :: more => (b :: line) :: more

variable {sep}

theorem lines_append {line : List α} (h : sep ∉ line) (rest : List α) :
    lines sep (line ++ sep :: rest) = line :: lines sep rest := by
  induction line with
  | nil => simp [lines]
  | cons b line ih =>
      rw [List.mem_cons, not_or] at h
      rw [List.cons_append, lines, if_neg (Ne.symm h.1), ih h.2]

theorem lines_of_not_mem {line : List α} (hne : line ≠ []) (h : sep ∉ line) :
    lines sep line = [line] := by
  induction line with
  | nil => exact absurd rfl hne
  | cons b line ih =>
      rw [List.mem_cons, not_or] at h
      rw [lines, if_neg (Ne.symm h.1)]
      cases line with
      | nil => rfl
      | cons c line => rw [ih (List.cons_ne_nil _ _) h.2]

theorem lines_rows {rows : List (List α)} (h : ∀ row ∈ rows, sep ∉ row) (rest : List α) :
    lines sep (rows.flatMap (fun row => row ++ [sep]) ++ rest) = rows ++ lines sep rest := by
  induction rows with
  | nil => rfl
  | cons row rows ih =>
      have hrest := ih fun r hr => h r (List.mem_cons_of_mem _ hr)
      rw [List.flatMap_cons, List.append_assoc, List.append_assoc, List.singleton_append,
        lines_append (h row List.mem_cons_self), hrest, List.cons_append]

/-- A file in which every row is ended by the separator, or every row but the last one. A last row
that is empty is then not a line. -/
theorem lines_file {rows : List (List α)} (h : ∀ row ∈ rows, sep ∉ row) {content : List α}
    (hcontent : content = rows.flatMap (fun row => row ++ [sep]) ∨
      content ++ [sep] = rows.flatMap fun row => row ++ [sep]) :
    lines sep content = rows ∨ rows = lines sep content ++ [[]] := by
  cases hcontent with
  | inl hcontent =>
      left
      have hall := lines_rows h []
      rw [List.append_nil, lines, List.append_nil] at hall
      rw [hcontent, hall]
  | inr hcontent =>
      cases rows using List.reverseRecOn with
      | nil => simp at hcontent
      | append_singleton init last =>
          have hinit : ∀ row ∈ init, sep ∉ row := fun row hrow => h row (by simp [hrow])
          rw [List.flatMap_append, List.flatMap_singleton, ← List.append_assoc,
            List.append_cancel_right_eq] at hcontent
          subst hcontent
          rw [lines_rows hinit]
          by_cases hlast : last = []
          · subst hlast
            right
            rw [lines, List.append_nil]
          · left
            rw [lines_of_not_mem hlast (h last (by simp))]

end Lines

section Split

variable [DecidableEq α] (sep : α)

/-- What stands before the first separator and what stands behind it. -/
def splitFirst : List α → Option (List α × List α)
  | [] => none
  | b :: rest =>
      if b = sep then some ([], rest) else (splitFirst rest).map fun x => (b :: x.1, x.2)

variable {sep}

theorem splitFirst_append {left : List α} (h : sep ∉ left) (right : List α) :
    splitFirst sep (left ++ sep :: right) = some (left, right) := by
  induction left with
  | nil => simp [splitFirst]
  | cons b left ih =>
      rw [List.mem_cons, not_or] at h
      rw [List.cons_append, splitFirst, if_neg (Ne.symm h.1), ih h.2]
      rfl

theorem splitFirst_of_not_mem {text : List α} (h : sep ∉ text) : splitFirst sep text = none := by
  induction text with
  | nil => rfl
  | cons b text ih =>
      rw [List.mem_cons, not_or] at h
      rw [splitFirst, if_neg (Ne.symm h.1), ih h.2]
      rfl

end Split

section Trim

variable (p : α → Bool)

/-- Without the leading and the trailing letters that are white space. -/
def trim (text : List α) : List α := (text.dropWhile p).rdropWhile p

/-- Neither the first nor the last letter is white space. -/
structure Trimmed (text : List α) : Prop where
  first : ∀ b, text.head? = some b → p b = false
  last : ∀ b, text.getLast? = some b → p b = false

variable {p}

/-- A text that does not start with white space loses nothing. -/
theorem dropWhile_of_head {text : List α} (h : ∀ b, text.head? = some b → p b = false) :
    text.dropWhile p = text := by
  cases text with
  | nil => rfl
  | cons b text => rw [List.dropWhile_cons_of_neg (by simp [h b rfl])]

theorem trim_of_trimmed {text : List α} (h : Trimmed p text) : trim p text = text := by
  rw [trim, dropWhile_of_head h.first, List.rdropWhile_eq_self_iff]
  intro hne
  rw [h.last _ (List.getLast?_eq_some_getLast hne)]
  decide

theorem trim_blank {text : List α} (h : ∀ b ∈ text, p b = true) : trim p text = [] := by
  rw [trim, List.dropWhile_eq_nil_iff.mpr h, List.rdropWhile_nil]

theorem trim_append_left {lead : List α} (h : ∀ b ∈ lead, p b = true) (text : List α) :
    trim p (lead ++ text) = trim p text := by
  rw [trim, trim, List.dropWhile_append_of_pos h]

theorem trim_append_right (text : List α) {trail : List α} (h : ∀ b ∈ trail, p b = true) :
    trim p (text ++ trail) = trim p text := by
  have hreverse : ∀ b ∈ trail.reverse, p b = true := fun b hb => h b (List.mem_reverse.mp hb)
  unfold trim List.rdropWhile
  rw [List.dropWhile_append]
  split
  · rename_i hempty
    rw [List.isEmpty_iff] at hempty
    rw [hempty, List.dropWhile_eq_nil_iff.mpr h]
  · rw [List.reverse_append, List.dropWhile_append_of_pos hreverse]

/-- Padding is taken off again. -/
theorem trim_padded {lead text trail : List α} (hlead : ∀ b ∈ lead, p b = true)
    (htext : Trimmed p text) (htrail : ∀ b ∈ trail, p b = true) :
    trim p (lead ++ text ++ trail) = text := by
  rw [trim_append_right _ htrail, trim_append_left hlead, trim_of_trimmed htext]

/-- Around a letter that stays, each side loses what stands at its own end. -/
theorem trim_append_cons {left right : List α} {c : α} (hc : p c = false) :
    trim p (left ++ c :: right) = left.dropWhile p ++ c :: right.rdropWhile p := by
  have hleft : (left ++ c :: right).dropWhile p = left.dropWhile p ++ c :: right := by
    rw [List.dropWhile_append]
    split
    · rename_i hempty
      rw [List.isEmpty_iff.mp hempty, dropWhile_of_head (by simp [hc]), List.nil_append]
    · rfl
  have hright : ∀ first : List α,
      (first ++ c :: right).rdropWhile p = first ++ c :: right.rdropWhile p := by
    intro first
    unfold List.rdropWhile
    rw [List.reverse_append, List.reverse_cons, List.append_assoc, List.dropWhile_append]
    split
    · rename_i hempty
      rw [List.isEmpty_iff.mp hempty, List.singleton_append, dropWhile_of_head (by simp [hc])]
      simp
    · simp
  rw [trim, hleft, hright]

theorem trim_dropWhile (text : List α) : trim p (text.dropWhile p) = trim p text := by
  rw [trim, trim, List.dropWhile_idempotent]

theorem trim_rdropWhile (text : List α) : trim p (text.rdropWhile p) = trim p text := by
  have hsplit := List.rdropWhile_append_rtakeWhile (p := p) (l := text)
  have htail : ∀ b ∈ text.rtakeWhile p, p b = true := fun b hb => List.mem_rtakeWhile_imp hb
  have happend := trim_append_right (text.rdropWhile p) htail
  rw [hsplit] at happend
  exact happend.symm

theorem trimmed_of_forall {text : List α} (h : ∀ b ∈ text, p b = false) : Trimmed p text :=
  ⟨fun b hb => h b (List.mem_of_mem_head? hb), fun b hb => h b (List.mem_of_mem_getLast? hb)⟩

end Trim

end Servd.Text
