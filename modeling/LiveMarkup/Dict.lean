namespace LiveMarkup

/-- Keys in strictly ascending order. -/
def Ascending (entries : List (String × α)) : Prop :=
  entries.Pairwise fun a b => a.1 < b.1

def lookupKey (k : String) : List (String × α) → Option α
  | [] => none
  | (k', v) :: rest => if k = k' then some v else lookupKey k rest

def insertKey (k : String) (v : α) : List (String × α) → List (String × α)
  | [] => [(k, v)]
  | (k', v') :: rest =>
    if k < k' then (k, v) :: (k', v') :: rest
    else if k = k' then (k, v) :: rest
    else (k', v') :: insertKey k v rest

def eraseKey (k : String) (entries : List (String × α)) : List (String × α) :=
  entries.filter fun e => e.1 ≠ k

theorem lt_of_not_lt_of_ne {a b : String} (h : ¬ a < b) (hne : a ≠ b) : b < a := by
  rcases Classical.em (b < a) with hlt | hlt
  · exact hlt
  · exact absurd (String.le_antisymm (String.not_lt.mp hlt) (String.not_lt.mp h)) hne

theorem mem_insertKey {k : String} {v : α} {entries : List (String × α)} {e : String × α}
    (h : e ∈ insertKey k v entries) : e = (k, v) ∨ e ∈ entries := by
  induction entries with
  | nil => simpa [insertKey] using h
  | cons head rest ih =>
    obtain ⟨k', v'⟩ := head
    unfold insertKey at h
    split at h
    · simpa using h
    · split at h
      · rcases List.mem_cons.mp h with h | h
        · exact Or.inl h
        · exact Or.inr (List.mem_cons_of_mem _ h)
      · rcases List.mem_cons.mp h with h | h
        · exact Or.inr (h ▸ List.mem_cons_self ..)
        · exact (ih h).imp_right (List.mem_cons_of_mem _)

theorem ascending_insertKey {k : String} {v : α} {entries : List (String × α)}
    (h : Ascending entries) : Ascending (insertKey k v entries) := by
  induction entries with
  | nil => simp [insertKey, Ascending]
  | cons head rest ih =>
    obtain ⟨k', v'⟩ := head
    obtain ⟨hhead, hrest⟩ := List.pairwise_cons.mp h
    unfold insertKey
    split
    next hlt =>
      refine List.pairwise_cons.mpr ⟨fun e he => ?_, h⟩
      rcases List.mem_cons.mp he with rfl | he
      · exact hlt
      · exact String.lt_trans hlt (hhead e he)
    next hlt =>
      split
      next heq =>
        subst heq
        exact List.pairwise_cons.mpr ⟨hhead, hrest⟩
      next hne =>
        refine List.pairwise_cons.mpr ⟨fun e he => ?_, ih hrest⟩
        rcases mem_insertKey he with rfl | he
        · exact lt_of_not_lt_of_ne hlt hne
        · exact hhead e he

theorem ascending_eraseKey {k : String} {entries : List (String × α)}
    (h : Ascending entries) : Ascending (eraseKey k entries) :=
  h.filter _

/-- A finite map from names, with its entries in ascending order of the names. -/
structure Dict (α : Type u) where
  entries : List (String × α)
  ascending : Ascending entries
deriving DecidableEq

namespace Dict

def empty : Dict α :=
  ⟨[], List.Pairwise.nil⟩

instance : Inhabited (Dict α) := ⟨empty⟩

def get? (d : Dict α) (k : String) : Option α :=
  lookupKey k d.entries

def contains (d : Dict α) (k : String) : Bool :=
  (d.get? k).isSome

def insert (d : Dict α) (k : String) (v : α) : Dict α :=
  ⟨insertKey k v d.entries, ascending_insertKey d.ascending⟩

def erase (d : Dict α) (k : String) : Dict α :=
  ⟨eraseKey k d.entries, ascending_eraseKey d.ascending⟩

def keys (d : Dict α) : List String :=
  d.entries.map (·.1)

def size (d : Dict α) : Nat :=
  d.entries.length

def isEmpty (d : Dict α) : Bool :=
  d.entries.isEmpty

/-- Later pairs replace earlier ones with the same name. -/
def ofList (pairs : List (String × α)) : Dict α :=
  pairs.foldl (fun d e => d.insert e.1 e.2) empty

end Dict

/-- A set of names, in ascending order. -/
abbrev Names := Dict Unit

def Names.add (names : Names) (name : String) : Names :=
  names.insert name ()

def Names.ofList (names : List String) : Names :=
  names.foldl Names.add Dict.empty

/-- Keeps the first occurrence of every name. -/
def firstOccurrences : List String → List String
  | [] => []
  | name :: rest => name :: (firstOccurrences rest).filter (· ≠ name)

end LiveMarkup
