import LiveMarkup.Proofs.NestedCreation
import LiveMarkup.Proofs.ReachedPage
import LiveMarkup.Proofs.RefreshFrame

namespace LiveMarkup

variable {p q : Page} {i : Instance} {host : Host} {strict : Prop} {op : Op} {root : Option NodeId} {c : ComponentId}
  {done ops : List Op} {k : Nat} {step : Step} {n : NodeId} {d : Definition}

namespace Instance

/-- What a component exposes after an instruction that came upon the slots as they are. -/
def expose (i : Instance) (points : Dict NodeId) : Op → Dict NodeId
  | .attach s name =>
    match i.node? s with
    | some n => points.insert name n
    | none => points
  | _ => points

/-- What a component exposes after a list of instructions. -/
def exposeAll (i : Instance) (ops : List Op) (points : Dict NodeId) : Dict NodeId :=
  ops.foldl i.expose points

variable {points : Dict NodeId}

theorem expose_of_ne_attach (h : ∀ s name, op ≠ .attach s name) : i.expose points op = points := by
  cases op with
  | attach s name => exact absurd rfl (h s name)
  | _ => rfl

theorem expose_attach {s : Slot} (h : i.node? s = some n) (name : String) :
    i.expose points (.attach s name) = points.insert name n := by
  simp only [expose, h]

theorem exposeAll_concat (ops : List Op) (op : Op) :
    i.exposeAll (ops ++ [op]) points = i.expose (i.exposeAll ops points) op :=
  List.foldl_concat ..

theorem expose_congr {i' : Instance} (h : ∀ s ∈ op.mentions, i'.node? s = i.node? s) :
    i'.expose points op = i.expose points op := by
  cases op with
  | attach s name =>
    have hsame := h s (Op.attach s name).slot_mem_mentions
    simp only [expose, hsame]
  | _ => rfl

theorem exposeAll_congr {i' : Instance} (h : ∀ op ∈ ops, ∀ s ∈ op.mentions, i'.node? s = i.node? s) :
    i'.exposeAll ops points = i.exposeAll ops points := by
  induction ops generalizing points with
  | nil => rfl
  | cons op rest ih =>
    have hop := h op List.mem_cons_self
    have hrest := fun o ho => h o (List.mem_cons_of_mem op ho)
    rw [exposeAll, List.foldl_cons, expose_congr hop]
    exact ih hrest

/-- The slot that comes next is not named by the instructions before. -/
theorem exposeAll_bind (hdone : Op.Sequence 0 done k) (n : Option NodeId) :
    (i.bind k n).exposeAll done points = i.exposeAll done points := by
  refine exposeAll_congr fun op hop s hs => ?_
  exact node?_bind_of_ne (Nat.ne_of_lt (hdone.mentions_lt op hop s hs)) n

theorem get?_exposeAll_of_unnamed {name : String} (h : ∀ s, .attach s name ∉ ops) :
    (i.exposeAll ops points).get? name = points.get? name := by
  induction ops generalizing points with
  | nil => rfl
  | cons op rest ih =>
    have hstep : (i.expose points op).get? name = points.get? name := by
      cases op with
      | attach s other =>
        simp only [expose]
        cases i.node? s with
        | none => rfl
        | some n =>
          have hne : name ≠ other := fun heq => h s (heq ▸ List.mem_cons_self)
          rw [Dict.get?_insert, if_neg hne]
      | _ => rfl
    exact (ih fun s hs => h s (List.mem_cons_of_mem op hs)).trans hstep

/-- A name that one slot has stands for the node of that slot. -/
theorem get?_exposeAll_of_named {name : String} {s : Slot} (hmem : .attach s name ∈ ops)
    (halone : ∀ s', .attach s' name ∈ ops → s' = s) :
    (i.exposeAll ops points).get? name = (i.node? s).or (points.get? name) := by
  induction ops generalizing points with
  | nil => cases hmem
  | cons op rest ih =>
    have hrest : ∀ s', .attach s' name ∈ rest → s' = s := fun s' hs' => halone s' (List.mem_cons_of_mem op hs')
    rw [exposeAll, List.foldl_cons]
    by_cases hlater : .attach s name ∈ rest
    · refine (ih hlater hrest).trans ?_
      cases hn : i.node? s with
      | some n => rfl
      | none =>
        -- no instruction so far has found the slot built
        have hsame : (i.expose points op).get? name = points.get? name := by
          cases op with
          | attach s' other =>
            by_cases hother : name = other
            · subst hother
              obtain rfl := halone s' List.mem_cons_self
              simp only [expose, hn]
            · simp only [expose]
              cases i.node? s' with
              | none => rfl
              | some n => rw [Dict.get?_insert, if_neg hother]
          | _ => rfl
        rw [hsame]
    · have hunnamed : ∀ s', .attach s' name ∉ rest := fun s' hs' => hlater (hrest s' hs' ▸ hs')
      refine (get?_exposeAll_of_unnamed hunnamed).trans ?_
      rcases List.mem_cons.mp hmem with rfl | hmem
      · cases hn : i.node? s with
        | some n =>
          rw [expose_attach hn, Dict.get?_insert, if_pos rfl]
          rfl
        | none => simp only [expose, hn, Option.none_or]
      · exact absurd hmem hlater

end Instance

namespace Page

theorem points_congr (h : q.components = p.components) (c : ComponentId) : q.points c = p.points c := by
  rw [points, component, cell, h, points, component, cell]

end Page

namespace Instance

/-- Only an instruction to attach has a component expose anything. -/
theorem points_execLocal_of_ne_attach (i : Instance) (h : ∀ s name, op ≠ .attach s name) (hp : p.WidgetsOnly)
    (c : ComponentId) : (i.execLocal op p).2.points c = p.points c := by
  obtain ⟨run, hrun, heq⟩ := i.execLocal_runs op p
  rw [heq]
  cases hrun with
  | attach name hn => exact absurd rfl (h _ name)
  | property path hn hv => exact (Page.setProperty_keeps hp _ path _).points trivial c
  | callback name hn hv => exact (Page.setProperty_keeps hp _ _ _).points trivial c
  | child ha hb =>
    simp only [Page.append]
    split <;> rfl
  | _ => rfl

/-- An instruction has the component of its instance expose what it says, and no other. -/
theorem points_execLocal (hc : i.component < p.components.size) (hfree : p.access i.component = .free)
    (hp : p.WidgetsOnly) (op : Op) :
    (i.execLocal op p).2.points i.component = i.expose (p.points i.component) op ∧
      ∀ c, c ≠ i.component → (i.execLocal op p).2.points c = p.points c := by
  by_cases hop : ∃ s name, op = .attach s name
  · obtain ⟨s, name, rfl⟩ := hop
    cases hn : i.node? s with
    | none =>
      have hskip : (i.execLocal (.attach s name) p).2 = p := by simp only [execLocal, node, hn, skip]
      rw [hskip]
      refine ⟨?_, fun _ _ => rfl⟩
      simp only [expose, hn]
    | some n =>
      have hattach : (i.execLocal (.attach s name) p).2 = p.modifyComponent i.component (·.attach name n) := by
        simp only [execLocal, node, hn, attach, hfree, ↓reduceIte]
      rw [hattach, expose_attach hn]
      constructor
      · rw [Page.points, Page.component_modifyComponent hc]
        rfl
      · intro c hne
        exact congrArg Component.attachPoints (p.component_modifyComponent_of_ne hne _)
  · have hne : ∀ s name, op ≠ .attach s name := fun s name heq => hop ⟨s, name, heq⟩
    have hsame := i.points_execLocal_of_ne_attach hne hp
    rw [expose_of_ne_attach hne]
    exact ⟨hsame i.component, fun c _ => hsame c⟩

end Instance

namespace Page

/-- A widget shows an instance of a defined template, and its component exposes what the instructions of that
template say and nothing else. -/
def Exposes (p : Page) (w : Widget) : Prop :=
  ∃ i tag d initial, w.shown = some i ∧ p.registry.get? tag = some d ∧ d.kind = .widget i.template initial ∧
    p.points w.component = i.exposeAll i.template.build Dict.empty

theorem Exposes.congr {w : Widget} (h : p.Exposes w) (hregistry : q.registry = p.registry)
    (hpoints : q.points w.component = p.points w.component) : q.Exposes w := by
  rw [Exposes, hregistry, hpoints]
  exact h

/-- A page that has come by elements: the components that were there expose what they did, and those of the new
widgets what their own templates say. -/
structure Furnished (p q : Page) : Prop where
  kept : ∀ c, c < p.components.size → q.points c = p.points c
  made : ∀ m w, p.document.size ≤ m → q.widget? m = some w → q.Exposes w

theorem WellNested.widget?_eq_none (hp : p.WellNested strict) {m : NodeId} (hm : p.document.size ≤ m) :
    p.widget? m = none := by
  rw [widget?, hp.custom?_eq_none hm]
  rfl

theorem Furnished.of_elements (hp : p.WellNested strict) (helements : q.elements = p.elements)
    (hcomponents : q.components = p.components) : p.Furnished q where
  kept c _ := points_congr hcomponents c
  made m w hm hw := by
    have hnone : q.widget? m = p.widget? m := by rw [widget?, custom?, helements, widget?, custom?]
    rw [hnone, hp.widget?_eq_none hm] at hw
    cases hw

end Page

/-- Creating an element furnishes the page. -/
def Host.Furnishes (strict : Prop) (host : Host) : Prop :=
  ∀ tag ns p n q, host.create tag ns p = some (n, q) → p.WellNested strict → p.WidgetsOnly → p.Furnished q

namespace Instance

/-- A build under way, with the instructions `done` behind it, for the component `c` on what was the page `p₀`. -/
structure Exposing (p₀ : Page) (c : ComponentId) (done : List Op) (i : Instance) (p : Page) : Prop where
  component : i.component = c
  widgets : p.WidgetsOnly
  own : p.points c = i.exposeAll done (p₀.points c)
  others : ∀ c', c' < p₀.components.size → c' ≠ c → p.points c' = p₀.points c'
  made : ∀ m w, p₀.document.size ≤ m → p.widget? m = some w → p.Exposes w

variable {p₀ : Page} {rest : List Op}

theorem Exposing.warned (h : i.Exposing p₀ c done p) (phase : Phase) (op : Op) (step : Step) :
    i.Exposing p₀ c done (stepWarned phase op step p) := by
  have hkeeps := stepWarned_keeps h.widgets True phase op step
  have hpoints := hkeeps.points trivial
  have hsteady := steady_stepWarned phase op step p
  refine ⟨h.component, hkeeps.widgets, (hpoints c).trans h.own,
    fun c' hlt hne => (hpoints c').trans (h.others c' hlt hne), fun m w hm hw => ?_⟩
  exact (h.made m w hm (hsteady.widget? m ▸ hw)).congr hsteady.registry (hpoints _)

theorem execBuild_furnishes (hhost : host.Furnishes strict) (hp : p.WellNested strict) (hwidgets : p.WidgetsOnly)
    (hop : op.bound? = some k) (h : i.execBuild host root op p = some (step, q)) : p.Furnished q := by
  cases execBuild_bound hop h with
  | created hn => exact hhost _ _ p _ q hn hp hwidgets
  | adopted => exact .of_elements hp rfl rfl
  | newText value text fault => exact .of_elements hp rfl rfl

/-- The instructions before a new slot have nothing to do with it, and the new widgets are not of the component. -/
theorem Exposing.bind (h : i.Exposing p₀ c done p) (hc : c < p₀.components.size) (hgrown₀ : p₀.Grown strict root p)
    (hdone : Op.Sequence 0 done k) (hop : op.bound? = some k) (hgrown : p.Grown strict none q)
    (hfurnished : p.Furnished q) (hq : q.WidgetsOnly) (n : Option NodeId) :
    (i.bind k n).Exposing p₀ c (done ++ [op]) q := by
  have hne : ∀ s name, op ≠ .attach s name := by
    rintro s name rfl
    cases hop
  have hkept : ∀ c', c' < p₀.components.size → q.points c' = p.points c' :=
    fun c' hlt => hfurnished.kept c' (Nat.lt_of_lt_of_le hlt hgrown₀.count)
  refine ⟨h.component, hq, ?_, fun c' hlt hne => (hkept c' hlt).trans (h.others c' hlt hne), fun m w hm hw => ?_⟩
  · rw [exposeAll_concat, expose_of_ne_attach hne, exposeAll_bind hdone, hkept c hc]
    exact h.own
  · by_cases hold : m < p.document.size
    · rw [Page.widget?_congr (hgrown.old m hold)] at hw
      have howned := (hgrown₀.wellNested.living m w hw).owned
      exact (h.made m w hm hw).congr hgrown.registry (hfurnished.kept _ howned)
    · exact hfurnished.made m w (Nat.not_lt.mp hold) hw

/-- An instruction that binds no slot has the component expose what it says, and no other. -/
theorem points_execBuild (hhost : host.Orderly) (hc : i.component < p.components.size)
    (hfree : p.access i.component = .free) (hp : p.WidgetsOnly) (hop : op.bound? = none)
    (h : i.execBuild host root op p = some (step, q)) :
    q.points i.component = i.expose (p.points i.component) op ∧ ∀ c', c' ≠ i.component → q.points c' = p.points c' := by
  cases execBuild_ran hop h with
  | alone hneeds hlocal =>
    have hpoints := points_execLocal hc hfree hp op
    rwa [hlocal] at hpoints
  | created hn => cases hop
  | unbuilt hn => exact ⟨rfl, fun _ _ => rfl⟩
  | flushed hn hflush =>
    have hsame := (hhost.flush _ p _ q hflush hp).points trivial
    exact ⟨hsame _, fun c' _ => hsame c'⟩

/-- A component in use is not made to expose anything. -/
theorem points_execBuild_of_busy (hhost : host.Orderly) (hbusy : p.access i.component ≠ .free) (hp : p.WidgetsOnly)
    (hop : op.bound? = none) (h : i.execBuild host root op p = some (step, q)) (c : ComponentId) :
    q.points c = p.points c := by
  cases execBuild_ran hop h with
  | alone hneeds hlocal =>
    by_cases hattach : ∃ s name, op = .attach s name
    · obtain ⟨s, name, rfl⟩ := hattach
      have hskip : (i.execLocal (.attach s name) p).2 = p := by
        simp only [execLocal]
        cases i.node s with
        | error f => rfl
        | ok n => simp only [attach, hbusy, ↓reduceIte, skip]
      rw [hlocal] at hskip
      cases hskip
      rfl
    · have hsame := i.points_execLocal_of_ne_attach (fun s name heq => hattach ⟨s, name, heq⟩) hp c
      rwa [hlocal] at hsame
  | created hn => cases hop
  | unbuilt hn => rfl
  | flushed hn hflush => exact (hhost.flush _ p _ q hflush hp).points trivial c

theorem Exposing.use (h : i.Exposing p₀ c done p) (hc : c < p₀.components.size) (hgrown₀ : p₀.Grown strict root p)
    (hsteady : p.Steady q) (hq : q.WidgetsOnly)
    (hpoints : q.points c = i.expose (p.points c) op ∧ ∀ c', c' ≠ c → q.points c' = p.points c') :
    i.Exposing p₀ c (done ++ [op]) q := by
  refine ⟨h.component, hq, ?_, fun c' hlt hne => (hpoints.2 c' hne).trans (h.others c' hlt hne), fun m w hm hw => ?_⟩
  · rw [exposeAll_concat, hpoints.1, h.own]
  · rw [hsteady.widget? m] at hw
    have hnew : w.component ≠ c := Nat.ne_of_gt (Nat.lt_of_lt_of_le hc (hgrown₀.owned m w hm hw))
    exact (h.made m w hm hw).congr hsteady.registry (hpoints.2 _ hnew)

end Instance

/-- A build has its component expose what its instructions say. -/
theorem Template.buildOn_exposing {strict : Prop} (hcreate : host.Creates strict) (hflush : host.Flushes strict)
    (horderly : host.Orderly) (hfurnishes : host.Furnishes strict) {t : Template} {sink : Sink} {report : Report}
    (hp : p.WellNested strict) (hwidgets : p.WidgetsOnly) (htends : t.Tends (p.Tended strict))
    (hc : c < p.components.size) (hfree : p.access c = .free)
    (h : t.buildOn host c root sink p = some (.ok (i, report), q)) : i.Exposing p c t.build q := by
  refine buildOn_invariant hcreate hflush (P := fun done i p' => i.Exposing p c done p') ⟨?_, ?_⟩
    (fun _ h => ⟨h.component, h.widgets, h.own, h.others, h.made⟩) hp htends
    ⟨rfl, hwidgets, rfl, fun _ _ _ => rfl, fun m w hm hw => by rw [hp.widget?_eq_none hm] at hw; cases hw⟩ h
  · intro done rest op k i p' step q' n hunder _ hdone hop _ hexec hgrown _ hexposing
    have hfurnished := Instance.execBuild_furnishes hfurnishes hunder.grown.wellNested hexposing.widgets hop hexec
    have hq' := (Instance.execBuild_widgetsOnly horderly hexposing.widgets hexec).1
    exact (hexposing.bind hc hunder.grown hdone hop hgrown hfurnished hq' n).warned .build op step
  · intro done rest op k i p' step q' hunder _ _ hop hexec hsteady hexposing
    have hq' := (Instance.execBuild_widgetsOnly horderly hexposing.widgets hexec).1
    have hpoints := Instance.points_execBuild horderly
      (hexposing.component ▸ Nat.lt_of_lt_of_le hc hunder.grown.count)
      (hexposing.component ▸ (hunder.grown.access c hc).trans hfree) hexposing.widgets hop hexec
    rw [hexposing.component] at hpoints
    exact (hexposing.use hc hunder.grown hsteady hq' hpoints).warned .build op step

namespace Page

theorem attachPoints_withProps (p : Page) (c : Component) (props : List (String × Operand)) :
    (p.withProps c props).1.attachPoints = c.attachPoints := by
  induction props generalizing p c with
  | nil => rfl
  | cons prop rest ih => exact ih (p.valueOf prop.2).2 (c.withProp prop.1 (p.valueOf prop.2).1)

/-- A new component exposes nothing. -/
theorem attachPoints_make (p : Page) (b : Blueprint) : (p.make b).1.attachPoints = Dict.empty := by
  have hmethods : ∀ (methods : List (String × Script)) (c : Component),
      (methods.foldl (fun c m => c.withMethod m.1 m.2) c).attachPoints = c.attachPoints := by
    intro methods
    induction methods with
    | nil => exact fun _ => rfl
    | cons m rest ih => exact fun c => ih (c.withMethod m.1 m.2)
  exact (hmethods b.methods _).trans (p.attachPoints_withProps (.named b.name) b.props)

theorem points_beginConnecting {t : Template} {initial : Blueprint} (hd : d.kind = .widget t initial) (p : Page)
    (n : NodeId) : (p.beginConnecting n d).points p.components.size = Dict.empty := by
  obtain ⟨c, routines, callbacks, hmake, -⟩ := p.make_frame initial
  have hnone : c.attachPoints = Dict.empty := by
    have hmade := p.attachPoints_make initial
    rwa [hmake] at hmade
  have hcomponents : (p.beginConnecting n d).components = p.components.push ⟨c, .free, true⟩ := by
    simp only [beginConnecting, instantiate, hd, hmake, addComponent]
  rw [points, component, cell, hcomponents, Array.getElem?_push, if_pos rfl]
  exact hnone

end Page

/-- The component of a new element exposes what its own template says, and those within it what theirs say. -/
theorem connectElement_furnishes (hcreate : host.Creates strict) (hflush : host.Flushes strict)
    (horderly : host.Orderly) (hfurnishes : host.Furnishes strict) {tag : String} {kind : NodeKind} {u : Unit}
    (hp : p.WellNested strict) (hwidgets : p.WidgetsOnly) (hd : p.registry.get? tag = some d)
    (h : connectElement host tag p.document.size d { p with document := p.document.push kind } = some (u, q)) :
    p.Furnished q := by
  obtain ⟨t, initial, p₁, i, k, found, r, hp₁, hkind, -, hconnecting, hwell, htends, hbuild, htemplate, -, hi, hhoused,
    rfl⟩ := connectElement_underway hcreate hflush hp hd h
  have hdefined := hwidgets.defined tag d hd
  have hbegun : p₁.WidgetsOnly := by
    rw [hp₁]
    exact Page.widgetsOnly_beginConnecting (p := { p with document := p.document.push kind }) (hwidgets.congr rfl rfl)
      hdefined p.document.size
  have hnone : p₁.points p.components.size = Dict.empty := by
    rw [hp₁]
    exact Page.points_beginConnecting hkind { p with document := p.document.push kind } p.document.size
  have hexposing := Template.buildOn_exposing hcreate hflush horderly hfurnishes hwell hbegun htends
    (hconnecting.count ▸ Nat.lt_succ_self _) hconnecting.access_self hbuild
  obtain ⟨hgrown, hwidget, -⟩ := hconnecting.grown hp hi hhoused r.connecting.dropLast rfl
  have hsteady := (Page.applyDeferred_touched hgrown.wellNested p.document.size).steady
  have hcompiled : t.Compiled := by
    obtain ⟨t', initial', hkind', ht'⟩ := hdefined
    cases hkind.symm.trans hkind'
    exact ht'
  have hpoints := (Page.finishConnecting_keeps hexposing.widgets p.document.size
    ⟨⟨t, p.components.size, some i⟩, rfl, hcompiled, fun _ heq => by cases heq; exact htemplate ▸ hcompiled⟩).points
    trivial
  have hregistry : (r.finishConnecting p.document.size ⟨t, p.components.size, some i⟩).registry = p.registry :=
    hsteady.registry.trans hgrown.registry
  constructor
  · intro c hc
    have hlt : c < p₁.components.size := hconnecting.count ▸ Nat.lt_succ_of_lt hc
    calc (r.finishConnecting p.document.size ⟨t, p.components.size, some i⟩).points c
      _ = r.points c := hpoints c
      _ = p₁.points c := hexposing.others c hlt (Nat.ne_of_lt hc)
      _ = p.points c := congrArg (fun cell => cell.component.attachPoints) (hconnecting.cell hc)
  · intro m w' hm hw'
    rw [Page.finishConnecting, hsteady.widget?] at hw'
    by_cases hself : m = p.document.size
    · subst hself
      cases hwidget.symm.trans hw'
      refine ⟨i, tag, d, initial, rfl, hregistry ▸ hd, htemplate ▸ hkind, ?_⟩
      rw [hpoints, hexposing.own, hnone, htemplate]
    · have hsame : r.widget? m = some w' := by
        rw [Page.widget?, Page.custom?_modifyCustom, if_neg hself] at hw'
        exact hw'
      have hlater : p₁.document.size ≤ m := hconnecting.size ▸ Nat.lt_of_le_of_ne hm (Ne.symm hself)
      refine (hexposing.made m w' hlater hsame).congr ?_ (hpoints _)
      exact hsteady.registry

theorem createElementWith_furnishes (hcreate : host.Creates strict) (hflush : host.Flushes strict)
    (horderly : host.Orderly) (hfurnishes : host.Furnishes strict) {tag : String} {ns : Namespace}
    (h : createElementWith host tag ns p = some (n, q)) (hp : p.WellNested strict)
    (hwidgets : p.WidgetsOnly) : p.Furnished q := by
  obtain ⟨rfl, ⟨-, rfl⟩ | ⟨d, -, hd, hconnect⟩⟩ := createElementWith_eq_some.mp h
  · exact .of_elements hp rfl rfl
  · exact connectElement_furnishes hcreate hflush horderly hfurnishes hp hwidgets hd hconnect

theorem hostTo_furnishes (depth : Nat) : (hostTo depth).Furnishes strict := by
  induction depth with
  | zero => exact fun _ _ _ _ _ h => by cases h
  | succ depth ih =>
    exact fun _ _ _ _ _ h => createElementWith_furnishes (hostTo_creates depth) (hostTo_flushes depth)
      (hostTo_orderly depth) ih h

end LiveMarkup
