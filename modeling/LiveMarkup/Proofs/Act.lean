import LiveMarkup.Page.Host

namespace LiveMarkup

variable {p p' q : Page}

namespace Act

theorem pure_eq_some {a b : α} : (pure a : Act α) p = some (b, p') ↔ a = b ∧ p = p' := by
  change some (a, p) = some (b, p') ↔ _
  simp

theorem bind_eq_some {m : Act α} {f : α → Act β} {p'' : Page} {b : β} :
    (m >>= f) p = some (b, p'') ↔ ∃ a p', m p = some (a, p') ∧ f a p' = some (b, p'') := by
  change (m p).bind (fun r => f r.1 r.2) = some (b, p'') ↔ _
  rw [Option.bind_eq_some_iff]
  constructor
  · rintro ⟨⟨a, p'⟩, hm, hf⟩
    exact ⟨a, p', hm, hf⟩
  · rintro ⟨a, p', hm, hf⟩
    exact ⟨(a, p'), hm, hf⟩

theorem get_eq_some : (get : Act Page) p = some (q, p') ↔ p = q ∧ p = p' := by
  change some (p, p) = some (q, p') ↔ _
  simp

theorem set_eq_some {u : PUnit} : (set q : Act PUnit) p = some (u, p') ↔ q = p' := by
  change some (PUnit.unit, q) = some (u, p') ↔ _
  simp

theorem modify_eq_some {f : Page → Page} {u : PUnit} : (modify f : Act PUnit) p = some (u, p') ↔ f p = p' := by
  change some (PUnit.unit, f p) = some (u, p') ↔ _
  simp

theorem modifyGet_eq_some {f : Page → α × Page} {a : α} : (modifyGet f : Act α) p = some (a, p') ↔ f p = (a, p') := by
  change some (f p) = some (a, p') ↔ _
  simp

end Act

theorem withHost_eq_some {act : Host → Act α} {a : α} :
    withHost act p = some (a, q) ↔ act (hostTo p.nesting) p = some (a, q) := by
  simp only [withHost, Act.bind_eq_some, Act.get_eq_some]
  constructor
  · rintro ⟨_, _, ⟨rfl, rfl⟩, h⟩
    exact h
  · intro h
    exact ⟨p, p, ⟨rfl, rfl⟩, h⟩

end LiveMarkup
