import Mathlib.Data.List.TakeWhile
import TransferDesk.Proofs.Text.Tokens
/-!
# Blanks around a text

What blanks stand around a text makes no difference to what is left of it (`trim_blanks`), and a
text that neither begins nor ends with a blank is left as it is (`Trimmed.trim_eq`).
-/

namespace TransferDesk.Text

/-- The text neither begins nor ends with a blank. -/
structure Trimmed (s : List Char) : Prop where
  start : Solid s
  ending : Solid s.reverse

theorem solid_iff_all {s : List Char} : s.head?.all (!isBlank ·) ↔ Solid s := by
  cases s with
  | nil => simp [Solid]
  | cons c s => simp [Solid]

instance (s : List Char) : Decidable (Solid s) :=
  decidable_of_iff _ solid_iff_all

instance (s : List Char) : Decidable (Trimmed s) :=
  decidable_of_iff (Solid s ∧ Solid s.reverse) ⟨fun h => ⟨h.1, h.2⟩, fun h => ⟨h.start, h.ending⟩⟩

theorem trimEnd_append_blank {gap : List Char} (h : Blank gap) (s : List Char) :
    trimEnd (s ++ gap) = trimEnd s := by
  have hreverse : Blank gap.reverse := fun c hc => h c (List.mem_reverse.1 hc)
  unfold trimEnd
  rw [List.reverse_append]
  exact congrArg List.reverse (trimStart_blank_append hreverse s.reverse)

/-- Blanks behind a text stay behind it, unless all of it is blank. -/
theorem trim_append_blank {gap : List Char} (h : Blank gap) (s : List Char) :
    trim (s ++ gap) = trim s := by
  by_cases hs : Blank s
  · have hall : Blank (s ++ gap) := by
      intro c hc
      rcases List.mem_append.1 hc with hc | hc
      · exact hs c hc
      · exact h c hc
    have hnil {t : List Char} (ht : Blank t) : trimStart t = [] := by
      rw [← List.append_nil t, trimStart_blank_append ht]
      rfl
    unfold trim
    rw [hnil hall, hnil hs]
  · have hstart : trimStart (s ++ gap) = trimStart s ++ gap := by
      unfold trimStart
      rw [List.dropWhile_append]
      refine if_neg ?_
      intro hempty
      refine hs fun c hc => ?_
      exact List.dropWhile_eq_nil_iff.1 (List.isEmpty_iff.1 hempty) c hc
    unfold trim
    rw [hstart, trimEnd_append_blank h]

/-- Blanks around a text make no difference. -/
theorem trim_blanks {front back : List Char} (hfront : Blank front) (hback : Blank back)
    (s : List Char) :
    trim (front ++ s ++ back) = trim s := by
  rw [trim_append_blank hback]
  unfold trim
  rw [trimStart_blank_append hfront]

theorem Trimmed.trim_eq {s : List Char} (h : Trimmed s) : trim s = s := by
  unfold trim trimEnd
  rw [trimStart_of_solid h.start]
  have hend : s.reverse.dropWhile isBlank = s.reverse := trimStart_of_solid h.ending
  rw [hend, List.reverse_reverse]

theorem IsWord.trimmed {w : List Char} (h : IsWord w) : Trimmed w where
  start c hc := h.solid c (List.mem_of_mem_head? hc)
  ending c hc := h.solid c (List.mem_reverse.1 (List.mem_of_mem_head? hc))

/-- Spaces are blank. -/
theorem blank_spaces (n : Nat) : Blank (List.replicate n ' ') := by
  intro c hc
  rw [List.eq_of_mem_replicate hc]
  rfl

end TransferDesk.Text
