import TransferDesk.Ledger
/-!
# The ledger of a list of accounts

A ledger that is built from accounts holds each of them, at two places as far as they fit, and
nothing else. No account that it holds had more than two places to begin with, and nothing has
been transferred yet.
-/

namespace TransferDesk.Ledger

theorem insert_eq_ok {l after : Ledger} {a : Account} (h : l.insert a = .ok after) :
    ¬ a.balance.ExceedsMoney ∧ (∀ b, b ∈ after.accounts ↔ b = kept a ∨ b ∈ l.accounts) ∧
      after.journal = l.journal ∧ after.nextNumber = l.nextNumber := by
  unfold insert at h
  split at h
  · simp at h
  · split at h
    · simp at h
    · rename_i hmoney
      obtain rfl := Except.ok.inj h
      refine ⟨hmoney, ?_, rfl, rfl⟩
      intro b
      exact Keyed.mem_insertBy

theorem insertAll_eq_ok {l after : Ledger} {as : List Account} (h : l.insertAll as = .ok after) :
    (∀ a ∈ as, ¬ a.balance.ExceedsMoney) ∧
      (∀ b, b ∈ after.accounts ↔ b ∈ l.accounts ∨ b ∈ as.map kept) ∧
      after.journal = l.journal ∧ after.nextNumber = l.nextNumber := by
  induction as generalizing l with
  | nil =>
    obtain rfl := Except.ok.inj h
    simp
  | cons a as ih =>
    rw [insertAll] at h
    split at h
    · simp at h
    · rename_i next hnext
      obtain ⟨hmoney, hmem, hj, hn⟩ := insert_eq_ok hnext
      obtain ⟨hmoney', hmem', hj', hn'⟩ := ih h
      refine ⟨?_, ?_, hj'.trans hj, hn'.trans hn⟩
      · intro b hb
        rcases List.mem_cons.1 hb with rfl | hb
        · exact hmoney
        · exact hmoney' b hb
      · intro b
        rw [hmem', hmem, List.map_cons, List.mem_cons, or_assoc, or_left_comm]

/-- Whatever a ledger holds that was built from accounts, it was built from. -/
theorem ofAccounts_eq_ok {l : Ledger} {as : List Account} (h : ofAccounts as = .ok l) :
    (∀ b ∈ l.accounts, ∃ a ∈ as, ¬ a.balance.ExceedsMoney ∧ b = kept a) ∧
      l.journal = [] ∧ l.nextNumber = 1 := by
  obtain ⟨hmoney, hmem, hj, hn⟩ := insertAll_eq_ok h
  refine ⟨?_, hj, hn⟩
  intro b hb
  rcases (hmem b).1 hb with hb | hb
  · exact absurd hb List.not_mem_nil
  · obtain ⟨a, ha, rfl⟩ := List.mem_map.1 hb
    exact ⟨a, ha, hmoney a ha, rfl⟩

end TransferDesk.Ledger
