import LiveMarkup.Dict

namespace LiveMarkup

theorem lookupKey_insertKey {α : Type u} (k x : String) (v : α) (entries : List (String × α)) :
    lookupKey x (insertKey k v entries) = if x = k then some v else lookupKey x entries := by
  induction entries with
  | nil => simp [insertKey, lookupKey]
  | cons e rest ih =>
    obtain ⟨k', v'⟩ := e
    unfold insertKey
    split
    · simp [lookupKey]
    · split
      next heq =>
        subst heq
        by_cases hx : x = k <;> simp [lookupKey, hx]
      next hne =>
        by_cases hx : x = k'
        · subst hx
          simp [lookupKey, Ne.symm hne]
        · simp [lookupKey, hx, ih]

theorem eraseKey_cons {α : Type u} (k : String) (e : String × α) (rest : List (String × α)) :
    eraseKey k (e :: rest) = if e.1 = k then eraseKey k rest else e :: eraseKey k rest := by
  by_cases h : e.1 = k <;> simp [eraseKey, h]

theorem lookupKey_eraseKey {α : Type u} (k x : String) (entries : List (String × α)) :
    lookupKey x (eraseKey k entries) = if x = k then none else lookupKey x entries := by
  induction entries with
  | nil => simp [eraseKey, lookupKey]
  | cons e rest ih =>
    obtain ⟨k', v'⟩ := e
    rw [eraseKey_cons]
    by_cases hk : k' = k
    · rw [if_pos hk, ih]
      by_cases hx : x = k <;> simp [lookupKey, hk, hx]
    · by_cases hx : x = k'
      · subst hx
        simp [lookupKey, hk]
      · simp [lookupKey, hk, hx, ih]

theorem mem_of_lookupKey {α : Type u} {k : String} {v : α} {entries : List (String × α)}
    (h : lookupKey k entries = some v) : (k, v) ∈ entries := by
  induction entries with
  | nil => simp [lookupKey] at h
  | cons e rest ih =>
    obtain ⟨k', v'⟩ := e
    unfold lookupKey at h
    split at h
    next heq =>
      subst heq
      cases Option.some.inj h
      exact List.mem_cons_self ..
    next => exact List.mem_cons_of_mem _ (ih h)

theorem lookupKey_eq_none_of_lt {α : Type u} {k : String} {entries : List (String × α)}
    (h : ∀ e ∈ entries, k < e.1) : lookupKey k entries = none := by
  cases hl : lookupKey k entries with
  | none => rfl
  | some v => exact absurd (h _ (mem_of_lookupKey hl)) (String.lt_irrefl k)

/-- The first key of an ascending list is no larger than any key the list has. -/
theorem head_le_of_lookupKey {α : Type u} {e : String × α} {rest : List (String × α)} {k : String} {v : α}
    (hs : Ascending (e :: rest)) (h : lookupKey k (e :: rest) = some v) : ¬ k < e.1 := by
  rcases List.mem_cons.mp (mem_of_lookupKey h) with rfl | hm
  · exact String.lt_irrefl _
  · intro hlt
    exact String.lt_irrefl _ (String.lt_trans hlt ((List.pairwise_cons.mp hs).1 _ hm))

theorem ascending_ext {α : Type u} {a b : List (String × α)} (ha : Ascending a) (hb : Ascending b)
    (h : ∀ k, lookupKey k a = lookupKey k b) : a = b := by
  induction a generalizing b with
  | nil =>
    cases b with
    | nil => rfl
    | cons e rest => simpa [lookupKey] using h e.1
  | cons e as ih =>
    cases b with
    | nil => simpa [lookupKey] using h e.1
    | cons f bs =>
      have hef : lookupKey e.1 (f :: bs) = some e.2 := by rw [← h]; simp [lookupKey]
      have hfe : lookupKey f.1 (e :: as) = some f.2 := by rw [h]; simp [lookupKey]
      have hkey : e.1 = f.1 :=
        String.le_antisymm (String.not_lt.mp (head_le_of_lookupKey ha hfe))
          (String.not_lt.mp (head_le_of_lookupKey hb hef))
      have hval : e.2 = f.2 := by simpa [lookupKey, hkey] using hef.symm
      obtain ⟨hea, has⟩ := List.pairwise_cons.mp ha
      obtain ⟨hfb, hbs⟩ := List.pairwise_cons.mp hb
      have htail : as = bs := by
        apply ih has hbs
        intro k
        by_cases hk : k = e.1
        · rw [hk, lookupKey_eq_none_of_lt hea, hkey, lookupKey_eq_none_of_lt hfb]
        · have hk' : k ≠ f.1 := hkey ▸ hk
          simpa [lookupKey, hk, hk'] using h k
      rw [Prod.ext hkey hval, htail]

theorem length_le_insertKey {α : Type u} (k : String) (v : α) (entries : List (String × α)) :
    entries.length ≤ (insertKey k v entries).length := by
  induction entries with
  | nil => exact Nat.zero_le _
  | cons e rest ih =>
    unfold insertKey
    split
    · exact Nat.le_succ _
    · split
      · exact Nat.le_refl _
      · exact Nat.succ_le_succ ih

namespace Dict

theorem contains_of_isEmpty {α : Type u} {d : Dict α} (h : d.isEmpty = true) (x : String) : d.contains x = false := by
  rw [contains, get?, List.isEmpty_iff.mp h]
  rfl

theorem get?_insert {α : Type u} (d : Dict α) (k x : String) (v : α) :
    (d.insert k v).get? x = if x = k then some v else d.get? x :=
  lookupKey_insertKey k x v d.entries

theorem size_le_insert {α : Type u} (d : Dict α) (k : String) (v : α) : d.size ≤ (d.insert k v).size :=
  length_le_insertKey k v d.entries

theorem get?_erase {α : Type u} (d : Dict α) (k x : String) :
    (d.erase k).get? x = if x = k then none else d.get? x :=
  lookupKey_eraseKey k x d.entries

/-- Dictionaries are equal when every name has the same value in both. -/
theorem ext_get? {α : Type u} {d e : Dict α} (h : ∀ k, d.get? k = e.get? k) : d = e := by
  cases d with
  | mk entries hd =>
    cases e with
    | mk others he =>
      have heq : entries = others := ascending_ext hd he h
      subst heq
      rfl

/-- Sets or removes an entry. -/
def put {α : Type u} (d : Dict α) (k : String) : Option α → Dict α
  | some v => d.insert k v
  | none => d.erase k

theorem get?_put {α : Type u} (d : Dict α) (k x : String) (v : Option α) :
    (d.put k v).get? x = if x = k then v else d.get? x := by
  cases v with
  | some v => exact d.get?_insert k x v
  | none => exact d.get?_erase k x

theorem put_put_self {α : Type u} (d : Dict α) (k : String) (v w : Option α) :
    (d.put k v).put k w = d.put k w := by
  apply ext_get?
  intro x
  simp only [get?_put]
  split <;> rfl

theorem put_comm {α : Type u} (d : Dict α) {k k' : String} (v v' : Option α) (h : k ≠ k') :
    (d.put k v).put k' v' = (d.put k' v').put k v := by
  apply ext_get?
  intro x
  simp only [get?_put]
  grind

end Dict

@[simp] theorem mem_firstOccurrences {name : String} {names : List String} :
    name ∈ firstOccurrences names ↔ name ∈ names := by
  induction names with
  | nil => simp [firstOccurrences]
  | cons n rest ih =>
    by_cases h : name = n <;> simp [firstOccurrences, ih, h]

end LiveMarkup
