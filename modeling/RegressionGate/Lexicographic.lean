/-! The order of pairs in which the first parts count most: pairs with the same first part are
compared by the second one. Where the parts are in strict order, so are the pairs. -/

namespace RegressionGate.Lexicographic

variable {α β : Type} [LT α] [LT β] {p q r : α × β}

theorem irrefl (hα : ∀ a : α, ¬a < a) (hβ : ∀ b : β, ¬b < b) (p : α × β) : ¬p.lexLt p := by
  rintro (h | ⟨-, h⟩)
  · exact hα p.1 h
  · exact hβ p.2 h

theorem trans (hα : ∀ {a b c : α}, a < b → b < c → a < c)
    (hβ : ∀ {a b c : β}, a < b → b < c → a < c) (hpq : p.lexLt q) (hqr : q.lexLt r) :
    p.lexLt r := by
  rcases hpq with h | ⟨h, h'⟩ <;> rcases hqr with k | ⟨k, k'⟩
  · exact .inl (hα h k)
  · exact .inl (k ▸ h)
  · exact .inl (h ▸ k)
  · exact .inr ⟨h.trans k, hβ h' k'⟩

/-- Different pairs are in order one way or the other. -/
theorem eq_of_not_lt (hα : ∀ {a b : α}, ¬a < b → ¬b < a → a = b)
    (hβ : ∀ {a b : β}, ¬a < b → ¬b < a → a = b) (hpq : ¬p.lexLt q) (hqp : ¬q.lexLt p) : p = q := by
  have hfirst : p.1 = q.1 := hα (fun h => hpq (.inl h)) fun h => hqp (.inl h)
  have hsecond : p.2 = q.2 :=
    hβ (fun h => hpq (.inr ⟨hfirst, h⟩)) fun h => hqp (.inr ⟨hfirst.symm, h⟩)
  exact Prod.ext hfirst hsecond

end RegressionGate.Lexicographic
