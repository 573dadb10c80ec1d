import LiveMarkup.Proofs.Forest
import LiveMarkup.Proofs.MarkupPrinting

namespace LiveMarkup

variable {r r' : List Char} {props : Dict Value}

/-- What can be read off the markup of a tree: its shape, its tags, its attributes and texts, and the displayed values
of the properties that are written. -/
inductive Reading where
  | text (s : String)
  | element (tag : String) (attrs : Dict String) (props : List (String × String)) (children : List Reading)

/-- Properties are written unless they show in an attribute or hold a callback. -/
def isWritten (e : String × Value) : Bool :=
  (reflection? e.1).isNone && e.2.asCallback?.isNone

/-- The displayed values of the properties that are written. -/
def writtenProps (props : Dict Value) : List (String × String) :=
  (props.entries.filter isWritten).map fun e => (e.1, e.2.display)

mutual

def Tree.reading : Tree → Reading
  | .text s => .text s
  | .element tag _ attrs props children => .element tag attrs (writtenProps props) (Tree.readingAll children)

def Tree.readingAll : List Tree → List Reading
  | [] => []
  | t :: rest => t.reading :: Tree.readingAll rest

end

def Tree.isText : Tree → Bool
  | .text _ => true
  | .element .. => false

/-- Names are of letters, digits and a few marks, and not empty. -/
def IsPlainName (name : String) : Prop :=
  name ≠ "" ∧ name.toList.all isNameChar = true

instance (name : String) : Decidable (IsPlainName name) :=
  inferInstanceAs (Decidable (_ ∧ _))

mutual

/-- Tags, attributes and properties have proper names, no attribute has a dot in front, no text is empty, and no two
texts stand side by side. -/
def Tree.Readable : Tree → Prop
  | .text s => s ≠ ""
  | .element tag _ attrs props children => IsTagName tag.toList ∧
    (∀ name ∈ attrs.keys, IsPlainName name ∧ name.toList.head? ≠ some '.') ∧
    (∀ name ∈ props.keys, IsPlainName name) ∧ Tree.AllReadable children

def Tree.AllReadable : List Tree → Prop
  | [] => True
  | t :: rest => t.Readable ∧ (t.isText = true → ∀ next ∈ rest.head?, next.isText = false) ∧ Tree.AllReadable rest

end

section Escapes

variable {s s' : String}

theorem toList_escape (s : String) : (escape s).toList = s.toList.flatMap escapeChar := by
  rw [escape, String.toList_ofList]

/-- Written characters do not run into each other. -/
theorem escapeChar_append_inj {c c' : Char} (h : escapeChar c ++ r = escapeChar c' ++ r') : c = c' ∧ r = r' := by
  unfold escapeChar at h
  split_ifs at h <;> simp_all
  all_goals exact absurd h.1.symm ‹¬ c' = '&'›

theorem escape_injective (h : escape s = escape s') : s = s' := by
  have hchars : s.toList.flatMap escapeChar = s'.toList.flatMap escapeChar := by
    rw [← toList_escape, ← toList_escape, h]
  apply String.toList_injective
  generalize s.toList = cs at hchars
  generalize s'.toList = cs' at hchars
  have hne : ∀ c, escapeChar c ≠ [] := by
    intro c
    unfold escapeChar
    split_ifs <;> exact List.cons_ne_nil _ _
  induction cs generalizing cs' with
  | nil =>
    cases cs' with
    | nil => rfl
    | cons c' cs' => exact absurd (List.append_eq_nil_iff.mp hchars.symm).1 (hne c')
  | cons c cs ih =>
    cases cs' with
    | nil => exact absurd (List.append_eq_nil_iff.mp hchars).1 (hne c)
    | cons c' cs' =>
      obtain ⟨rfl, hrest⟩ := escapeChar_append_inj hchars
      rw [ih cs' hrest]

/-- The characters that delimit markup do not occur in written text. -/
theorem ne_of_mem_escape {c : Char} (h : c ∈ (escape s).toList) : c ≠ '<' ∧ c ≠ '"' := by
  rw [toList_escape] at h
  obtain ⟨x, -, hx⟩ := List.mem_flatMap.mp h
  have hentity : ∀ {chars : List Char}, chars.all (fun y => y != '<' && y != '"') = true → c ∈ chars →
      c ≠ '<' ∧ c ≠ '"' := by
    intro chars hall hc
    simpa using List.all_eq_true.mp hall c hc
  unfold escapeChar at hx
  split_ifs at hx with hamp hlt hgt hquote
  · exact hentity rfl hx
  · exact hentity rfl hx
  · exact hentity rfl hx
  · exact hentity rfl hx
  · rw [List.mem_singleton.mp hx]
    exact ⟨hlt, hquote⟩

theorem escape_ne_nil (h : s ≠ "") : (escape s).toList ≠ [] := by
  intro hnil
  apply h
  apply escape_injective
  exact String.toList_injective hnil

end Escapes

section Runs

variable {p : Char → Bool} {xs ys : List Char}

/-- Where a run of characters of a class ends is plain to see. -/
theorem run_append_inj (hxs : ∀ x ∈ xs, p x = true) (hys : ∀ x ∈ ys, p x = true) (hr : ∀ x ∈ r.head?, p x = false)
    (hr' : ∀ x ∈ r'.head?, p x = false) (h : xs ++ r = ys ++ r') : xs = ys ∧ r = r' := by
  have hfront := congrArg (List.takeWhile p) h
  have hback := congrArg (List.dropWhile p) h
  rw [takeWhile_run hxs hr, takeWhile_run hys hr'] at hfront
  rw [dropWhile_run hxs hr, dropWhile_run hys hr'] at hback
  exact ⟨hfront, hback⟩

end Runs

/-- A name with a text in quotes. -/
def entryChars (e : List Char × String) : List Char :=
  ' ' :: (e.1 ++ '=' :: '"' :: ((escape e.2).toList ++ ['"']))

/-- The attributes of an element and the properties that are written, with the dot in front. -/
def writtenEntries (attrs : Dict String) (props : Dict Value) : List (List Char × String) :=
  attrs.entries.map (fun e => (e.1.toList, e.2)) ++ (writtenProps props).map fun e => ('.' :: e.1.toList, e.2)

theorem toList_attributeMarkup (e : String × String) : (attributeMarkup e).toList = entryChars (e.1.toList, e.2) := by
  have hmarkup : attributeMarkup e = " " ++ e.1 ++ "=\"" ++ escape e.2 ++ "\"" := rfl
  simp [hmarkup, entryChars, String.toList_append]

theorem toList_propertyMarkup (e : String × Value) :
    (propertyMarkup e).toList = if isWritten e then entryChars ('.' :: e.1.toList, e.2.display) else [] := by
  obtain ⟨name, v⟩ := e
  cases hr : reflection? name with
  | some r => simp [propertyMarkup, isWritten, hr]
  | none =>
    have hmarkup : v.asCallback? = none →
        propertyMarkup (name, v) = " ." ++ name ++ "=\"" ++ escape v.display ++ "\"" := by
      intro hc
      cases v with
      | callback cb => cases hc
      | _ => simp only [propertyMarkup, hr]; rfl
    cases hc : v.asCallback? with
    | none => simp [hmarkup hc, isWritten, hr, hc, entryChars, String.toList_append]
    | some cb =>
      cases v with
      | callback cb => simp [propertyMarkup, isWritten, hr, Value.asCallback?]
      | _ => cases hc

theorem toList_join (texts : List String) : (String.join texts).toList = texts.flatMap String.toList := by
  induction texts with
  | nil => rfl
  | cons s rest ih => rw [String.join_cons, String.toList_append, ih, List.flatMap_cons]

theorem toList_openingMarkup (tag : String) (attrs : Dict String) (props : Dict Value) :
    (openingMarkup tag attrs props).toList =
      '<' :: (tag.toList ++ ((writtenEntries attrs props).flatMap entryChars ++ ['>'])) := by
  have hattrs : (attrs.entries.map attributeMarkup).flatMap String.toList =
      (attrs.entries.map fun e => (e.1.toList, e.2)).flatMap entryChars := by
    simp only [List.flatMap_map, toList_attributeMarkup]
  have hprops : (props.entries.map propertyMarkup).flatMap String.toList =
      ((writtenProps props).map fun e => ('.' :: e.1.toList, e.2)).flatMap entryChars := by
    rw [writtenProps, List.flatMap_map, List.map_map, List.flatMap_map]
    induction props.entries with
    | nil => rfl
    | cons e rest ih =>
      rw [List.flatMap_cons, toList_propertyMarkup, ih, List.filter_cons]
      split <;> rfl
  simp only [openingMarkup, writtenEntries, String.toList_append, toList_join, hattrs, hprops, List.flatMap_append]
  simp

section Entries

variable {e e' : List Char × String} {es es' : List (List Char × String)}

theorem entryChars_append_inj (he : ∀ c ∈ e.1, isNameChar c = true) (he' : ∀ c ∈ e'.1, isNameChar c = true)
    (h : entryChars e ++ r = entryChars e' ++ r') : e = e' ∧ r = r' := by
  simp only [entryChars, List.cons_append, List.append_assoc, List.cons.injEq, true_and] at h
  have hequals : ∀ {xs : List Char}, ∀ x ∈ ('=' :: xs).head?, isNameChar x = false := by
    intro xs x hx
    cases hx
    rfl
  obtain ⟨hname, h⟩ := run_append_inj he he' hequals hequals h
  simp only [List.cons.injEq, true_and] at h
  have hquoted : ∀ {s : String}, ∀ c ∈ (escape s).toList, (c != '"') = true := by
    intro s c hc
    exact bne_iff_ne.mpr (ne_of_mem_escape hc).2
  have hquote : ∀ {xs : List Char}, ∀ x ∈ ('"' :: xs).head?, (x != '"') = false := by
    intro xs x hx
    cases hx
    rfl
  obtain ⟨htext, h⟩ := run_append_inj hquoted hquoted hquote hquote h
  have htext := escape_injective (String.toList_injective htext)
  exact ⟨Prod.ext hname htext, (List.cons.inj h).2⟩

/-- Entries are read one after the other up to the end of the tag. -/
theorem entries_append_inj (hes : ∀ e ∈ es, ∀ c ∈ e.1, isNameChar c = true)
    (hes' : ∀ e ∈ es', ∀ c ∈ e.1, isNameChar c = true)
    (h : es.flatMap entryChars ++ '>' :: r = es'.flatMap entryChars ++ '>' :: r') : es = es' ∧ r = r' := by
  have hspace : ∀ (e : List Char × String) (xs ys : List Char), entryChars e ++ xs ≠ '>' :: ys := by
    intro e xs ys heq
    rw [entryChars, List.cons_append] at heq
    exact absurd (List.cons.inj heq).1 (by decide)
  induction es generalizing es' with
  | nil =>
    cases es' with
    | nil => exact ⟨rfl, (List.cons.inj h).2⟩
    | cons e' es' =>
      rw [List.flatMap_cons, List.append_assoc] at h
      exact absurd h.symm (hspace e' _ _)
  | cons e es ih =>
    cases es' with
    | nil =>
      rw [List.flatMap_cons, List.append_assoc] at h
      exact absurd h (hspace e _ _)
    | cons e' es' =>
      rw [List.flatMap_cons, List.flatMap_cons, List.append_assoc, List.append_assoc] at h
      obtain ⟨rfl, hrest⟩ := entryChars_append_inj (hes e List.mem_cons_self) (hes' e' List.mem_cons_self) h
      obtain ⟨rfl, hend⟩ := ih (fun x hx => hes x (List.mem_cons_of_mem _ hx))
        (fun x hx => hes' x (List.mem_cons_of_mem _ hx)) hrest
      exact ⟨rfl, hend⟩

end Entries

/-- The dot tells the properties from the attributes. -/
theorem writtenEntries_inj {attrs attrs' : Dict String} {props' : Dict Value}
    (hattrs : ∀ name ∈ attrs.keys, name.toList.head? ≠ some '.')
    (hattrs' : ∀ name ∈ attrs'.keys, name.toList.head? ≠ some '.')
    (h : writtenEntries attrs props = writtenEntries attrs' props') :
    attrs = attrs' ∧ writtenProps props = writtenProps props' := by
  have hplain : ∀ {attrs : Dict String}, (∀ name ∈ attrs.keys, name.toList.head? ≠ some '.') →
      ∀ e ∈ attrs.entries.map (fun e => (e.1.toList, e.2)), (e.1.head? != some '.') = true := by
    intro attrs hattrs e he
    obtain ⟨a, ha, rfl⟩ := List.mem_map.mp he
    exact bne_iff_ne.mpr (hattrs a.1 (List.mem_map_of_mem ha))
  have hdotted : ∀ {props : List (String × String)}, ∀ e ∈ (props.map fun e => ('.' :: e.1.toList, e.2)).head?,
      (e.1.head? != some '.') = false := by
    intro props e he
    obtain ⟨a, -, rfl⟩ := List.mem_map.mp (List.mem_of_head? he)
    rfl
  have hfront := congrArg (List.takeWhile fun e => e.1.head? != some '.') h
  have hback := congrArg (List.dropWhile fun e => e.1.head? != some '.') h
  rw [writtenEntries, writtenEntries, takeWhile_run (hplain hattrs) hdotted, takeWhile_run (hplain hattrs') hdotted]
    at hfront
  rw [writtenEntries, writtenEntries, dropWhile_run (hplain hattrs) hdotted, dropWhile_run (hplain hattrs') hdotted]
    at hback
  have hname : Function.Injective fun e : String × String => (e.1.toList, e.2) := by
    intro a b hab
    exact Prod.ext (String.toList_injective (Prod.mk.inj hab).1) (Prod.mk.inj hab).2
  have hdot : Function.Injective fun e : String × String => ('.' :: e.1.toList, e.2) := by
    intro a b hab
    exact Prod.ext (String.toList_injective (List.cons.inj (Prod.mk.inj hab).1).2) (Prod.mk.inj hab).2
  have hentries := List.map_injective_iff.mpr hname hfront
  refine ⟨?_, List.map_injective_iff.mpr hdot hback⟩
  cases attrs
  cases attrs'
  cases hentries
  rfl

theorem isNameChar_of_mem_writtenEntries {attrs : Dict String} (hattrs : ∀ name ∈ attrs.keys, IsPlainName name)
    (hprops : ∀ name ∈ props.keys, IsPlainName name) :
    ∀ e ∈ writtenEntries attrs props, ∀ c ∈ e.1, isNameChar c = true := by
  intro e he c hc
  rcases List.mem_append.mp he with he | he
  · obtain ⟨a, ha, rfl⟩ := List.mem_map.mp he
    exact List.all_eq_true.mp (hattrs a.1 (List.mem_map_of_mem ha)).2 c hc
  · obtain ⟨a, ha, rfl⟩ := List.mem_map.mp he
    obtain ⟨b, hb, rfl⟩ := List.mem_map.mp ha
    rcases List.mem_cons.mp hc with rfl | hc
    · rfl
    · exact List.all_eq_true.mp (hprops b.1 (List.mem_map_of_mem (List.mem_of_mem_filter hb))).2 c hc

section Tags

variable {tag tag' : String}

theorem isTagChar_of_mem {cs : List Char} (h : IsTagName cs) : ∀ c ∈ cs, isTagChar c = true := by
  obtain ⟨c, rest, rfl, halpha, hrest⟩ := h
  intro x hx
  rcases List.mem_cons.mp hx with rfl | hx
  · simp [isTagChar, Char.isAlphanum, halpha]
  · exact isTagChar_iff.mpr (hrest x hx)

theorem tag_append_inj (htag : IsTagName tag.toList) (htag' : IsTagName tag'.toList)
    (hr : ∀ x ∈ r.head?, isTagChar x = false) (hr' : ∀ x ∈ r'.head?, isTagChar x = false)
    (h : tag.toList ++ r = tag'.toList ++ r') : tag = tag' ∧ r = r' := by
  obtain ⟨hname, hrest⟩ := run_append_inj (isTagChar_of_mem htag) (isTagChar_of_mem htag') hr hr' h
  exact ⟨String.toList_injective hname, hrest⟩

/-- After the tag of an element comes a blank or the end of the tag. -/
theorem not_isTagChar_of_entries (es : List (List Char × String)) :
    ∀ x ∈ (es.flatMap entryChars ++ '>' :: r).head?, isTagChar x = false := by
  intro x hx
  cases es with
  | nil =>
    cases hx
    rfl
  | cons e es =>
    cases hx
    rfl

end Tags

namespace Tree

variable {t t' : Tree} {ts ts' : List Tree}

theorem toList_markup_element (tag : String) (ns : Namespace) (attrs : Dict String) (props : Dict Value)
    (children : List Tree) : (Tree.element tag ns attrs props children).markup.toList =
      '<' :: (tag.toList ++ ((writtenEntries attrs props).flatMap entryChars ++
        '>' :: ((Tree.markupList children).toList ++ '<' :: '/' :: (tag.toList ++ ['>'])))) := by
  simp [Tree.markup, String.toList_append, toList_openingMarkup]

theorem toList_markupList_cons (t : Tree) (rest : List Tree) :
    (Tree.markupList (t :: rest)).toList = t.markup.toList ++ (Tree.markupList rest).toList := by
  rw [Tree.markupList, String.toList_append]

/-- The markup of an element starts with its tag, and that of a text with none. -/
theorem Readable.markup_head (h : t.Readable) :
    ∃ c rest, t.markup.toList = c :: rest ∧ (t.isText = true → c ≠ '<') ∧ (t.isText = false → c = '<') := by
  cases t with
  | text s =>
    obtain ⟨c, rest, hchars⟩ := List.exists_cons_of_ne_nil (escape_ne_nil h)
    refine ⟨c, rest, hchars, fun _ => ?_, fun hfalse => by cases hfalse⟩
    exact (ne_of_mem_escape (hchars ▸ List.mem_cons_self)).1
  | element tag ns attrs props children =>
    exact ⟨'<', _, toList_markup_element .., (fun htrue => by cases htrue), fun _ => rfl⟩

/-- No tree is written with the mark that closes an element in front. -/
theorem Readable.markup_ne_closing (h : t.Readable) (xs ys : List Char) :
    t.markup.toList ++ xs ≠ '<' :: '/' :: ys := by
  intro heq
  cases t with
  | text s =>
    obtain ⟨c, rest, hchars, hc, -⟩ := h.markup_head
    rw [hchars] at heq
    exact hc rfl (List.cons.inj heq).1
  | element tag ns attrs props children =>
    rw [Tree.Readable] at h
    obtain ⟨c, rest, htag, halpha, -⟩ := h.1
    rw [toList_markup_element, htag] at heq
    obtain rfl : c = '/' := (List.cons.inj (List.cons.inj heq).2).1
    cases halpha

/-- After a text comes the mark of another element, or the one that closes its own. -/
theorem AllReadable.head_after_text (h : AllReadable (t :: ts)) (htext : t.isText = true) :
    ∀ x ∈ ((markupList ts).toList ++ '<' :: r).head?, x = '<' := by
  intro x hx
  rw [AllReadable] at h
  cases ts with
  | nil => exact (Option.some.inj hx).symm
  | cons next rest =>
    have hnext := h.2.2
    rw [AllReadable] at hnext
    obtain ⟨c, chars, hchars, -, hc⟩ := hnext.1.markup_head
    rw [toList_markupList_cons, hchars] at hx
    obtain rfl : c = x := Option.some.inj hx
    exact hc (h.2.1 htext next rfl)

mutual

/-- From the markup of a tree and what follows it, both can be told. -/
theorem markup_append_inj : ∀ (t t' : Tree) (r r' : List Char), t.Readable → t'.Readable →
    (t.isText = true → ∀ x ∈ r.head?, x = '<') → (t'.isText = true → ∀ x ∈ r'.head?, x = '<') →
    t.markup.toList ++ r = t'.markup.toList ++ r' → t.reading = t'.reading ∧ r = r'
  | .text s => by
    intro t' r r' h h' hafter hafter' heq
    obtain ⟨c, rest, hchars, hc, -⟩ := h.markup_head
    cases t' with
    | text s' =>
      have hplain : ∀ {s : String}, ∀ c ∈ (escape s).toList, (c != '<') = true := by
        intro s c hc
        exact bne_iff_ne.mpr (ne_of_mem_escape hc).1
      obtain ⟨htext, hrest⟩ := run_append_inj hplain hplain
        (fun x hx => by rw [hafter rfl x hx]; rfl) (fun x hx => by rw [hafter' rfl x hx]; rfl) heq
      exact ⟨congrArg Reading.text (escape_injective (String.toList_injective htext)), hrest⟩
    | element tag ns attrs props children =>
      rw [hchars, toList_markup_element] at heq
      exact absurd (List.cons.inj heq).1 (hc rfl)
  | .element tag ns attrs props children => by
    intro t' r r' h h' hafter hafter' heq
    cases t' with
    | text s' =>
      obtain ⟨c, rest, hchars, hc, -⟩ := h'.markup_head
      rw [hchars, toList_markup_element] at heq
      exact absurd (List.cons.inj heq).1.symm (hc rfl)
    | element tag' ns' attrs' props' children' =>
      rw [Readable] at h h'
      obtain ⟨htag, hattrs, hprops, hchildren⟩ := h
      obtain ⟨htag', hattrs', hprops', hchildren'⟩ := h'
      simp only [toList_markup_element, List.cons_append, List.append_assoc, List.cons.injEq, true_and] at heq
      obtain ⟨rfl, heq⟩ := tag_append_inj htag htag' (not_isTagChar_of_entries _) (not_isTagChar_of_entries _) heq
      obtain ⟨hentries, heq⟩ := entries_append_inj
        (isNameChar_of_mem_writtenEntries (fun name hname => (hattrs name hname).1) hprops)
        (isNameChar_of_mem_writtenEntries (fun name hname => (hattrs' name hname).1) hprops') heq
      obtain ⟨hattributes, hwritten⟩ := writtenEntries_inj (fun name hname => (hattrs name hname).2)
        (fun name hname => (hattrs' name hname).2) hentries
      obtain ⟨hbelow, heq⟩ := markupList_append_inj children children' _ _ hchildren hchildren' heq
      refine ⟨?_, (List.cons.inj (List.append_cancel_left heq)).2⟩
      rw [reading, reading, hattributes, hwritten, hbelow]

/-- Markup in a row is read up to the mark that closes an element. -/
theorem markupList_append_inj : ∀ (ts ts' : List Tree) (r r' : List Char), AllReadable ts → AllReadable ts' →
    (markupList ts).toList ++ '<' :: '/' :: r = (markupList ts').toList ++ '<' :: '/' :: r' →
    readingAll ts = readingAll ts' ∧ r = r'
  | [] => by
    intro ts' r r' _ h' heq
    cases ts' with
    | nil => exact ⟨rfl, (List.cons.inj (List.cons.inj heq).2).2⟩
    | cons t' ts' =>
      rw [AllReadable] at h'
      rw [toList_markupList_cons, List.append_assoc] at heq
      exact absurd heq.symm (h'.1.markup_ne_closing _ _)
  | t :: ts => by
    intro ts' r r' h h' heq
    have hafter := h.head_after_text (r := '/' :: r)
    rw [toList_markupList_cons, List.append_assoc] at heq
    rw [AllReadable] at h
    cases ts' with
    | nil => exact absurd heq (h.1.markup_ne_closing _ _)
    | cons t' ts' =>
      have hafter' := h'.head_after_text (r := '/' :: r')
      rw [toList_markupList_cons, List.append_assoc] at heq
      rw [AllReadable] at h'
      obtain ⟨hfirst, heq⟩ := markup_append_inj t t' _ _ h.1 h'.1 hafter hafter' heq
      obtain ⟨hrest, hend⟩ := markupList_append_inj ts ts' r r' h.2.2 h'.2.2 heq
      exact ⟨by rw [readingAll, readingAll, hfirst, hrest], hend⟩

end

mutual

/-- What is read off is all that is written. -/
theorem markup_of_reading : ∀ (t t' : Tree), t.reading = t'.reading → t.markup = t'.markup
  | .text s, t', h => by
    cases t' with
    | text s' =>
      cases h
      rfl
    | element tag ns attrs props children => cases h
  | .element tag ns attrs props children, t', h => by
    cases t' with
    | text s' => cases h
    | element tag' ns' attrs' props' children' =>
      rw [reading, reading] at h
      obtain ⟨rfl, rfl, hwritten, hbelow⟩ := Reading.element.inj h
      apply String.toList_injective
      rw [toList_markup_element, toList_markup_element, markupList_of_reading children children' hbelow,
        writtenEntries, writtenEntries, hwritten]

theorem markupList_of_reading : ∀ (ts ts' : List Tree), readingAll ts = readingAll ts' →
    markupList ts = markupList ts'
  | [], ts', h => by
    cases ts' with
    | nil => rfl
    | cons t' ts' => cases h
  | t :: ts, ts', h => by
    cases ts' with
    | nil => cases h
    | cons t' ts' =>
      rw [readingAll, readingAll] at h
      obtain ⟨hfirst, hrest⟩ := List.cons.inj h
      rw [markupList, markupList, markup_of_reading t t' hfirst, markupList_of_reading ts ts' hrest]

end

theorem Readable.markup_eq_iff (h : t.Readable) (h' : t'.Readable) :
    t.markup = t'.markup ↔ t.reading = t'.reading := by
  constructor
  · intro heq
    have hchars : t.markup.toList ++ [] = t'.markup.toList ++ [] := by rw [heq]
    exact (markup_append_inj t t' [] [] h h' (fun _ _ hx => by cases hx) (fun _ _ hx => by cases hx) hchars).1
  · exact markup_of_reading t t'

end Tree

namespace Document

variable {d d' : Document} {n n' : NodeId} {t t' : Tree}

/-- The first node is an element, and the second one of its children. -/
def Down (d : Document) (n c : NodeId) : Prop :=
  ∃ e parent children, d.nodes[n]? = some ⟨.element e, parent, children⟩ ∧ c ∈ children

theorem Down.lt (h : d.Down n n') : n < d.size := by
  obtain ⟨e, parent, children, hnode, -⟩ := h
  exact (Array.getElem?_eq_some_iff.mp hnode).1

theorem Unfolds.not_transGen_self (h : d.Unfolds n t) : ¬Relation.TransGen d.Down n n := by
  induction h with
  | missing hnode =>
    intro hself
    obtain ⟨c, ⟨_, _, _, helement, -⟩, -⟩ := Relation.TransGen.head'_iff.mp hself
    cases hnode.symm.trans helement
  | text hnode =>
    intro hself
    obtain ⟨c, ⟨_, _, _, helement, -⟩, -⟩ := Relation.TransGen.head'_iff.mp hself
    cases hnode.symm.trans helement
  | element hnode hbelow ih =>
    intro hself
    obtain ⟨c, ⟨_, _, _, helement, hc⟩, hback⟩ := Relation.TransGen.head'_iff.mp hself
    cases hnode.symm.trans helement
    exact ih c hc (.tail' hback ⟨_, _, _, hnode, hc⟩)

/-- The nodes on the way down to a node are different, so there is a level left for it. -/
theorem Unfolds.exists_level (h : d.Unfolds n t) (hn : n < d.size) {depth : Nat} {seen : List NodeId}
    (habove : ∀ s ∈ seen, Relation.TransGen d.Down s n) (hdistinct : seen.Nodup)
    (hdepth : d.size ≤ depth + seen.length) : (n :: seen).Nodup ∧ ∃ below, depth = below + 1 := by
  have hwithin : ∀ s ∈ seen, s < d.size := by
    intro s hs
    obtain ⟨c, hdown, -⟩ := Relation.TransGen.head'_iff.mp (habove s hs)
    exact hdown.lt
  have hdistinct' : (n :: seen).Nodup :=
    List.nodup_cons.mpr ⟨fun hmem => h.not_transGen_self (habove n hmem), hdistinct⟩
  have hlength := length_le_size hdistinct' (List.forall_mem_cons.mpr ⟨hn, hwithin⟩)
  rw [List.length_cons] at hlength
  exact ⟨hdistinct', depth - 1, by omega⟩

theorem Unfolds.subtreeTo_eq (h : d.Unfolds n t) {depth : Nat} {seen : List NodeId}
    (habove : ∀ s ∈ seen, Relation.TransGen d.Down s n) (hdistinct : seen.Nodup)
    (hdepth : d.size ≤ depth + seen.length) : d.subtreeTo depth n = t := by
  induction h generalizing depth seen with
  | missing hnode =>
    cases depth with
    | zero => rfl
    | succ depth => simp only [subtreeTo, hnode]
  | text hnode =>
    have hn := (Array.getElem?_eq_some_iff.mp hnode).1
    obtain ⟨-, below, rfl⟩ := (Unfolds.text hnode).exists_level hn habove hdistinct hdepth
    simp only [subtreeTo, hnode]
  | @element n e parent children f hnode hbelow ih =>
    have hn := (Array.getElem?_eq_some_iff.mp hnode).1
    obtain ⟨hdistinct', below, rfl⟩ := (Unfolds.element hnode hbelow).exists_level hn habove hdistinct hdepth
    simp only [subtreeTo, hnode]
    congr 1
    apply List.map_congr_left
    intro c hc
    have hdown : d.Down n c := ⟨_, _, _, hnode, hc⟩
    have habove' : ∀ s ∈ n :: seen, Relation.TransGen d.Down s c :=
      List.forall_mem_cons.mpr ⟨.single hdown, fun s hs => (habove s hs).tail hdown⟩
    refine ih c hc habove' hdistinct' ?_
    rw [List.length_cons]
    omega

theorem Unfolds.subtree_eq (h : d.Unfolds n t) : d.subtree n = t :=
  h.subtreeTo_eq (fun _ hmem => absurd hmem List.not_mem_nil) List.nodup_nil (Nat.le_add_right _ _)

/-- Two subtrees without cycles are written alike just when the same is read off them. -/
theorem markup_uniquely_readable (ht : d.Unfolds n t) (ht' : d'.Unfolds n' t') (h : t.Readable) (h' : t'.Readable) :
    d.markup n = d'.markup n' ↔ t.reading = t'.reading := by
  rw [markup, markup, ht.subtree_eq, ht'.subtree_eq]
  exact h.markup_eq_iff h'

/-- A paragraph with a title, a text and a line break. -/
def noteDocument (ns : Namespace) (props : Dict Value) : Document :=
  ⟨#[⟨.text "x < \"y\" & z", some 2, []⟩, ⟨.element (Element.ofTag "br" .html), some 2, []⟩,
    ⟨.element ⟨"p", ns, Dict.empty.insert "title" "a > b", props, []⟩, none, [0, 1]⟩]⟩

def noteTree (ns : Namespace) (props : Dict Value) : Tree :=
  .element "p" ns (Dict.empty.insert "title" "a > b") props
    [.text "x < \"y\" & z", .element "br" .html Dict.empty Dict.empty []]

theorem unfolds_note (ns : Namespace) (props : Dict Value) : (noteDocument ns props).Unfolds 2 (noteTree ns props) := by
  refine @Unfolds.element _ 2 ⟨"p", ns, Dict.empty.insert "title" "a > b", props, []⟩ none [0, 1]
    (fun c => if c = 0 then .text "x < \"y\" & z" else .element "br" .html Dict.empty Dict.empty []) rfl ?_
  intro c hc
  rcases List.mem_cons.mp hc with rfl | hc
  · exact .text rfl
  · obtain rfl := List.mem_singleton.mp hc
    exact @Unfolds.element _ 1 (Element.ofTag "br" .html) (some 2) [] (fun _ => .text "") rfl
      (fun _ hmem => absurd hmem List.not_mem_nil)

theorem readable_note (ns : Namespace) (h : ∀ name ∈ props.keys, IsPlainName name) : (noteTree ns props).Readable := by
  have htag : IsTagName "p".toList := @isTagName_of_class 'p' [] rfl (List.all_eq_true.mp rfl)
  have hbreak : IsTagName "br".toList := @isTagName_of_class 'b' ['r'] rfl (List.all_eq_true.mp rfl)
  have hattrs : ∀ name ∈ (Dict.empty.insert "title" "a > b").keys,
      IsPlainName name ∧ name.toList.head? ≠ some '.' := by decide
  have hnone : ∀ {α : Type} (name : String), name ∉ (Dict.empty : Dict α).keys := fun _ => List.not_mem_nil
  simp only [noteTree, Tree.Readable, Tree.AllReadable, Tree.isText]
  refine ⟨htag, hattrs, h, by decide, ?_, ⟨hbreak, ?_, ?_, trivial⟩, ?_, trivial⟩
  · intro _ next hnext
    cases hnext
    rfl
  · exact fun name hname => absurd hname (hnone name)
  · exact fun name hname => absurd hname (hnone name)
  · exact fun hfalse => by cases hfalse

/-- Neither the namespace nor a callback nor what tells a number from its text is written. -/
theorem markup_uniquely_readable_note :
    let props := Dict.empty.insert "mood" (Value.number 1)
    let props' := (Dict.empty.insert "mood" (Value.text "1")).insert "onmood" (.callback ⟨0, none⟩)
    (noteDocument .html props).markup 2 = (noteDocument .svg props').markup 2 ∧
      (noteTree .html props).reading = (noteTree .svg props').reading := by
  have hmarkup : (noteDocument .html (Dict.empty.insert "mood" (.number 1))).markup 2 =
      (noteDocument .svg ((Dict.empty.insert "mood" (.text "1")).insert "onmood" (.callback ⟨0, none⟩))).markup 2 := by
    decide +kernel
  refine ⟨hmarkup, ?_⟩
  exact (markup_uniquely_readable (unfolds_note ..) (unfolds_note ..) (readable_note _ (by decide))
    (readable_note _ (by decide))).mp hmarkup

end Document

end LiveMarkup
