import LiveMarkup.Proofs.HeldWrites
import LiveMarkup.Proofs.Leftovers

namespace LiveMarkup

/-- Nothing is equal to what is not a number. -/
theorem beq_of_isNaN (x : Float) {y : Float} (h : y.isNaN = true) : (x == y) = false := by
  have hy : y.toModel.unpack = .notANumber := by
    cases hu : y.toModel.unpack with
    | notANumber => rfl
    | _ =>
      rw [Float.isNaN, Float.Model.isNaN, hu] at h
      cases h
  have hcompare : x.toModel.unpack.compare y.toModel.unpack = none := by
    rw [hy]
    cases x.toModel.unpack <;> rfl
  change (x.toModel.unpack.compare y.toModel.unpack == some Ordering.eq) = false
  rw [hcompare]
  rfl

theorem beq_self_of_not_isNaN {x : Float} (h : x.isNaN = false) : (x == x) = true := by
  have hcompare : x.toModel.unpack.compare x.toModel.unpack = some .eq := by
    cases hu : x.toModel.unpack with
    | notANumber =>
      rw [Float.isNaN, Float.Model.isNaN, hu] at h
      cases h
    | infinity s => cases s <;> rfl
    | zero s => cases s <;> rfl
    | finite s m e hm =>
      have hparts : (compare e e).then (compare m m) = .eq := by simp
      cases s with
      | negative => exact congrArg (fun o => some o.swap) hparts
      | positive => exact congrArg some hparts
  change (x.toModel.unpack.compare x.toModel.unpack == some Ordering.eq) = true
  rw [hcompare]
  rfl

namespace Value

def isNaN : Value → Bool
  | number x => x.isNaN
  | _ => false

variable {v w : Value}

theorem equals_of_isNaN (h : v.isNaN = true) : (w == v) = false := by
  cases v with
  | number x =>
    cases w with
    | number y => exact beq_of_isNaN y h
    | _ => rfl
  | _ => cases h

theorem equals_self (h : v.isNaN = false) : (v == v) = true := by
  cases v with
  | null => rfl
  | bool b => exact beq_self_eq_true b
  | number x => exact beq_self_of_not_isNaN h
  | text s => exact beq_self_eq_true s
  | callback c => exact beq_self_eq_true c

/-- A value that is read where `v` was written: equal to it, and the same one if it is not a number. -/
def ReadsAs (w v : Value) : Prop :=
  (v.isNaN = true → w = v) ∧ (v.isNaN = false → (w == v) = true)

theorem ReadsAs.refl (v : Value) : v.ReadsAs v :=
  ⟨fun _ => rfl, equals_self⟩

theorem readsAs_of_eq_or_equals (h : w = v ∨ (w == v) = true) : w.ReadsAs v := by
  rcases h with rfl | h
  · exact .refl w
  · refine ⟨fun hnan => ?_, fun _ => h⟩
    rw [equals_of_isNaN hnan] at h
    cases h

end Value

/-- What a custom element answers for a property it declares. -/
def CustomElement.answer? (e : CustomElement) (p : Page) (name : String) : Option Value :=
  if e.busy then none
  else match e.behaviour with
    | .widget w => w.property? p name
    | .probe probe => probe.stored.get? name

namespace Page

variable {p : Page} {n : NodeId} {name : String} {path : PropertyPath}

theorem property?_declared (h : p.declares n name = true) :
    p.property? n name = (p.custom? n).bind fun e => e.answer? p name := by
  rw [property?, if_pos h]
  cases p.custom? n <;> rfl

theorem property?_undeclared (h : p.declares n name = false) :
    p.property? n name = (p.document.element? n).bind fun e => e.props.get? name := by
  rw [property?, h]
  rfl

/-- Neither the custom element of a node, if it has one, nor its component is in use. -/
def Unborrowed (p : Page) (n : NodeId) : Prop :=
  ¬p.IsBusy n ∧ ∀ w, p.widget? n = some w → ∃ cell, p.components[w.component]? = some cell ∧ cell.access = .free

/-- A write that a custom element receives: it answers with the value, and the node keeps what it had. -/
theorem setProperty_received (hdeclared : p.declares n path.head = true) (hfree : p.Unborrowed n) (v : Value) :
    (p.setProperty n path v).document = p.document ∧ (p.setProperty n path v).registry = p.registry ∧
    ∃ e, (p.setProperty n path v).custom? n = some e ∧
      ∃ w, e.answer? (p.setProperty n path v) path.display = some w ∧ w.ReadsAs v := by
  obtain ⟨e, he⟩ := custom?_of_declares hdeclared
  have hbusy : e.busy = false := Bool.eq_false_of_not_eq_true fun hbusy => hfree.1 ⟨e, he, hbusy⟩
  cases hbehaviour : e.behaviour with
  | widget w =>
    have hw : p.widget? n = some w := (widget?_of_custom? he).trans (congrArg Behaviour.widget? hbehaviour)
    obtain ⟨cell, hcell, haccess⟩ := hfree.2 w hw
    have hfree : p.access w.component = .free := by rw [access, Page.cell, hcell]; exact haccess
    have hin : w.component < p.components.size := (Array.getElem?_eq_some_iff.mp hcell).1
    rw [setProperty_handed hdeclared he hbehaviour hbusy, writeWidget, if_pos hfree]
    obtain ⟨x, hx, hreads⟩ := (p.component w.component).get?_set_self path.display v
    refine ⟨rfl, rfl, e, he, x, ?_, Value.readsAs_of_eq_or_equals hreads⟩
    rw [CustomElement.answer?, hbusy, hbehaviour]
    simp only [Bool.false_eq_true, if_false, Widget.property?, access_modifyComponent, hfree,
      component_modifyComponent hin, hx, reduceCtorEq]
  | probe probe =>
    have hwrite : p.setProperty n path v =
        (p.note (.written n path.display v)).setBehaviour n (.probe (probe.write path v)) := by
      simp only [setProperty, hdeclared, he, hbusy, hbehaviour, writeBehaviour, ↓reduceIte, Bool.not_false]
    rw [hwrite]
    refine ⟨rfl, rfl, { e with behaviour := .probe (probe.write path v) }, ?_, v, ?_, .refl v⟩
    · rw [setBehaviour, custom?_modifyCustom, if_pos rfl]
      exact congrArg (Option.map _) he
    · rw [CustomElement.answer?, hbusy]
      exact (Dict.get?_insert ..).trans (if_pos rfl)

/-- A write that stays with the node: it keeps the value, and its custom element answers as before. -/
theorem setProperty_kept (hundeclared : p.declares n path.head = false) {e : Element}
    (he : p.document.element? n = some e) (v : Value) :
    (p.setProperty n path v).document.element? n = some (e.setProperty path.display v) ∧
    (p.setProperty n path v).custom? n = p.custom? n ∧
    ∀ (c : CustomElement) name, c.answer? (p.setProperty n path v) name = c.answer? p name := by
  rw [setProperty_stored hundeclared]
  refine ⟨?_, rfl, fun _ _ => rfl⟩
  rw [Document.setProperty, Document.element?_modifyElement, he, Option.map_some]

/-- A node answers for the same properties after a write. -/
theorem declares_setProperty (p : Page) (n : NodeId) (path : PropertyPath) (v : Value) (hfree : p.Unborrowed n)
    (name : String) : (p.setProperty n path v).declares n name = p.declares n name := by
  cases hdeclared : p.declares n path.head with
  | false =>
    rw [setProperty_stored hdeclared]
    have htag := p.document.tag?_setProperty n n path v
    exact declares_congr (p := p) (q := { p with document := p.document.setProperty n path v }) rfl rfl htag name
  | true =>
    obtain ⟨hdocument, hregistry, e, he, -⟩ := setProperty_received hdeclared hfree v
    obtain ⟨e', he'⟩ := custom?_of_declares hdeclared
    refine declares_congr hregistry ?_ (congrArg (·.tag? n) hdocument) name
    rw [isCustom, isCustom, he, he']
    rfl

end Page

theorem Element.get?_setProperty (e : Element) (name : String) (v : Value) :
    (e.setProperty name v).props.get? name = some v :=
  (Dict.get?_insert ..).trans (if_pos rfl)

theorem PropertyPath.display_of_not_isNested {path : PropertyPath} (hne : path.segments ≠ [])
    (h : path.isNested = false) : path.display = path.head := by
  obtain ⟨segments⟩ := path
  cases segments with
  | nil => exact absurd rfl hne
  | cons first rest =>
    cases rest with
    | nil => rfl
    | cons second rest => simp [isNested] at h

namespace Page

variable {p : Page} {n : NodeId} {path : PropertyPath}

/-- A write goes where the first segment of its path is declared, and a read where the whole path is. What is written
is read if the two are one, as they are for a path that is not nested. Otherwise what is read is as before. -/
theorem property_read_after_write (helement : (p.document.element? n).isSome) (hfree : p.Unborrowed n)
    (hne : path.segments ≠ []) (v : Value) :
    (path.isNested = false → p.declares n path.head = p.declares n path.display) ∧
    (p.declares n path.head = p.declares n path.display →
      ∃ w, (p.setProperty n path v).property? n path.display = some w ∧ w.ReadsAs v) ∧
    (p.declares n path.head ≠ p.declares n path.display →
      (p.setProperty n path v).property? n path.display = p.property? n path.display) := by
  have hsame := p.declares_setProperty n path v hfree path.display
  obtain ⟨e, he⟩ := Option.isSome_iff_exists.mp helement
  refine ⟨fun hflat => by rw [PropertyPath.display_of_not_isNested hne hflat], fun hagree => ?_, fun hdiffer => ?_⟩
  · cases hdeclared : p.declares n path.head with
    | true =>
      obtain ⟨-, -, c, hc, hanswer⟩ := setProperty_received hdeclared hfree v
      rw [property?_declared (hsame.trans (hagree.symm.trans hdeclared)), hc]
      exact hanswer
    | false =>
      obtain ⟨helement', -, -⟩ := setProperty_kept hdeclared he v
      rw [property?_undeclared (hsame.trans (hagree.symm.trans hdeclared)), helement']
      exact ⟨v, e.get?_setProperty path.display v, .refl v⟩
  · cases hdeclared : p.declares n path.head with
    | true =>
      have hread : p.declares n path.display = false := by
        rw [hdeclared] at hdiffer
        exact Bool.eq_false_of_not_eq_true hdiffer.symm
      obtain ⟨hdocument, -⟩ := setProperty_received hdeclared hfree v
      rw [property?_undeclared (hsame.trans hread), hdocument, property?_undeclared hread]
    | false =>
      have hread : p.declares n path.display = true := by
        rw [hdeclared] at hdiffer
        exact Bool.eq_true_of_not_eq_false hdiffer.symm
      obtain ⟨-, hcustom, hanswers⟩ := setProperty_kept hdeclared he v
      rw [property?_declared (hsame.trans hread), hcustom, property?_declared hread]
      exact congrArg _ (funext fun c => hanswers c _)

/-- A widget that declares its style. -/
def sampleSwatch : TemplateNode :=
  .node (.ofTag "x-swatch") []

def sampleSwatchTemplate : Template :=
  .ofPlan { createRoot := false } sampleSwatch.size (sampleSwatch.rootPlan (fun _ => none) { createRoot := false })

def sampleSwatchPage : Page :=
  let registry := Dict.empty.insert "x-swatch"
    ⟨["style"], .widget sampleSwatchTemplate ⟨"swatch", [("style", .fixed .null)], []⟩⟩
  ((createElement "x-swatch" .html { Page.empty with registry := registry }).getD default).2

theorem sampleSwatchPage_unborrowed : sampleSwatchPage.Unborrowed 0 := by
  constructor
  · rintro ⟨e, he, hbusy⟩
    have hidle : (sampleSwatchPage.custom? 0).map (·.busy) = some false := by decide +kernel
    rw [he, Option.map_some, hbusy] at hidle
    cases hidle
  · intro w hw
    have haccess : (sampleSwatchPage.widget? 0).map
        (fun w => sampleSwatchPage.components[w.component]?.map (·.access)) = some (some .free) := by decide +kernel
    rw [hw] at haccess
    exact Option.map_eq_some_iff.mp (Option.some.inj haccess)

/-- The style of the swatch can be read back, and so can what the node keeps, but not a part of the style. -/
theorem property_read_after_write_sampleSwatch :
    (∃ w, (sampleSwatchPage.setProperty 0 (.single "style") (.number (0 / 0))).property? 0 "style" = some w ∧
      w.ReadsAs (.number (0 / 0))) ∧
    (∃ w, (sampleSwatchPage.setProperty 0 ⟨["data", "x"]⟩ (.bool true)).property? 0 "data.x" = some w ∧
      w.ReadsAs (.bool true)) ∧
    (sampleSwatchPage.setProperty 0 ⟨["style", "color"]⟩ (.text "red")).property? 0 "style.color" =
      sampleSwatchPage.property? 0 "style.color" := by
  have helement : (sampleSwatchPage.document.element? 0).isSome = true := by decide +kernel
  have hreads := fun (path : PropertyPath) (hne : path.segments ≠ []) =>
    property_read_after_write helement sampleSwatchPage_unborrowed hne
  refine ⟨?_, ?_, ?_⟩
  · obtain ⟨hflat, hread, -⟩ := hreads (.single "style") (by decide) (.number (0 / 0))
    exact hread (hflat rfl)
  · exact (hreads ⟨["data", "x"]⟩ (by decide) (.bool true)).2.1 (by decide +kernel)
  · exact (hreads ⟨["style", "color"]⟩ (by decide) (.text "red")).2.2
      (by decide +kernel)

/-- A part of the style goes to the component, and is not found again. -/
theorem part_of_style_not_read :
    let p := sampleSwatchPage.setProperty 0 ⟨["style", "color"]⟩ (.text "red")
    (p.property? 0 "style.color").isNone = true ∧
      ((p.component 0).props.get? "style.color").map Value.display = some "red" := by
  decide +kernel

end Page

end LiveMarkup
