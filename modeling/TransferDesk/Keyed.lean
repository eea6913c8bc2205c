/-!
# Lists in the order of a key

A list is in order if the keys of its members ascend, so that no two of them are equal. `insertBy`
adds a member with a new key and keeps the order.
-/

namespace TransferDesk.Keyed

variable {α : Type}

/-- Whether the keys of the members ascend. -/
abbrev Ascending (key : α → Int) (as : List α) : Prop :=
  as.Pairwise fun a b => key a < key b

theorem Ascending.eq_of_key {key : α → Int} {as : List α} (h : Ascending key as) {a b : α}
    (ha : a ∈ as) (hb : b ∈ as) (hab : key a = key b) : a = b := by
  induction as with
  | nil => simp at ha
  | cons c cs ih =>
    obtain ⟨first, rest⟩ := List.pairwise_cons.1 h
    rcases List.mem_cons.1 ha with ha | ha <;> rcases List.mem_cons.1 hb with hb | hb
    · rw [ha, hb]
    · have := first b hb
      rw [← ha] at this
      omega
    · have := first a ha
      rw [← hb] at this
      omega
    · exact ih rest ha hb

/-- Puts a member in front of the first one with a greater key. -/
def insertBy (key : α → Int) (a : α) : List α → List α
  | [] => [a]
  | b :: bs => if key a < key b then a :: b :: bs else b :: insertBy key a bs

theorem mem_insertBy {key : α → Int} {a x : α} {as : List α} :
    x ∈ insertBy key a as ↔ x = a ∨ x ∈ as := by
  induction as with
  | nil => simp [insertBy]
  | cons b bs ih =>
    rw [insertBy]
    split
    · simp
    · simp only [List.mem_cons, ih]
      exact or_left_comm

/-- A new member is one more. -/
theorem perm_insertBy (key : α → Int) (a : α) (as : List α) :
    (insertBy key a as).Perm (a :: as) := by
  induction as with
  | nil => exact List.Perm.refl _
  | cons b bs ih =>
    rw [insertBy]
    split
    · exact List.Perm.refl _
    · exact (ih.cons b).trans (List.Perm.swap a b bs)

theorem ascending_insertBy {key : α → Int} {a : α} {as : List α} (h : Ascending key as)
    (fresh : ∀ b ∈ as, key b ≠ key a) : Ascending key (insertBy key a as) := by
  induction as with
  | nil => simp [insertBy]
  | cons b bs ih =>
    obtain ⟨first, rest⟩ := List.pairwise_cons.1 h
    rw [insertBy]
    split
    · rename_i hab
      refine List.pairwise_cons.2 ⟨fun x hx => ?_, h⟩
      rcases List.mem_cons.1 hx with rfl | hx
      · exact hab
      · exact Int.lt_trans hab (first x hx)
    · rename_i hab
      have hne := fresh b List.mem_cons_self
      refine List.pairwise_cons.2 ⟨fun x hx => ?_, ih rest fun x hx => ?_⟩
      · rcases mem_insertBy.1 hx with rfl | hx
        · omega
        · exact first x hx
      · exact fresh x (List.mem_cons_of_mem b hx)

end TransferDesk.Keyed
