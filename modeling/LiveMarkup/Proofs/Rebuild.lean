import LiveMarkup.Proofs.BuildRenders
import LiveMarkup.Proofs.FreshView
import LiveMarkup.Proofs.Moves
import LiveMarkup.Proofs.TemplateSpecs

namespace LiveMarkup

/-- A template built on a plain page, with values from the expression language and no callbacks, always
agrees with its rebuilding: whatever properties are set, changes noted and events handled by assignments,
after a last delivery the tree at its root is the one that building it anew for a component with the same
properties gives, if no value fails. What receives the failures is taken to leave the components alone
(`Receiver.LeavesComponents`). -/
theorem refresh_agrees_with_rebuild {p : Page} (hp : p.Plain) {maps maps' : PropertyMaps}
    {options : CompileOptions} {node : TemplateNode} {t : Template}
    (h : compileWith p.registry.declared maps options node = (.ok t, maps'))
    (hroot : options.createRoot = true)
    (hspecs : ∀ spec ∈ node.specs, spec.FromLanguage ∧ spec.value.formula.CallbackFree)
    (hdistinct : node.DistinctTargets p.registry.declared .html) {c : ComponentId}
    (hc : c < p.components.size) (hfree : p.access c = .free)
    (hinert : ∀ name, ((p.component c).get name).Inert) (sink : Sink) :
    ∃ i report built, t.instantiate c none sink p = some (.ok (i, report), built) ∧
      ∀ moves : List Move, (∀ m ∈ moves, m.Admissible built.document c) →
        ∃ q, runMoves i (moves ++ [.deliver]) built = some ((), q) ∧
          ((∀ spec ∈ node.specs, ∃ v, q.valueFor c spec = .ok v) →
            ∀ (p₂ : Page) (c₂ : ComponentId) (sink₂ : Sink), p₂.Plain → p₂.access c₂ = .free →
              (p₂.component c₂).props = (q.component c).props →
              ∃ i₂ report₂ q₂, t.instantiate c₂ none sink₂ p₂ = some (.ok (i₂, report₂), q₂) ∧
                q₂.document.subtree i₂.root = q.document.subtree i.root) := by
  have hcompiled : t.Compiled := ⟨_, _, _, _, _, h⟩
  obtain ⟨head, children, rfl, htag, hleaves, ht⟩ := compileWith_ok h
  have hdeclared : ∀ tag, p.registry.declared tag = none := fun tag => by
    rw [Registry.declared, hp.undefined]
    rfl
  have hseparate := TemplateNode.rootPlan_separate options hdeclared hdistinct
  have hplaces := TemplateNode.rootPlan_specs p.registry.declared options hleaves
  have hlanguage := fun sub hsub place hplace => hspecs _ (hplaces sub hsub place hplace)
  have hbuilds := fun (p' : Page) (hp' : p'.Plain) (c' : ComponentId) (hfree' : p'.access c' = .free) sink' =>
    Site.builds_view (p'.site hp' (.node head children) t c' hfree' sink') ht htag hleaves hroot
      (Page.site_follows htag hleaves) hseparate hlanguage
  obtain ⟨x, report, built, hbuild, hplan, hi, htemplate, rfl, hsame, hready, hdone⟩ :=
    hbuilds p hp c hfree sink hinert
  refine ⟨x.inst, report, built, withHost_eq_some.mpr hbuild, fun moves hmoves => ?_⟩
  have hlive := hdone.live hready (by rw [hsame.count]; exact hc)
  obtain ⟨q, hrun, hq, hcurrent⟩ := hlive.moves (htemplate ▸ hcompiled) hmoves
  refine ⟨q, hrun, fun hok p₂ c₂ sink₂ hp₂ hfree₂ hprops => ?_⟩
  have hget : (p₂.component c₂).get = x.read q := Component.get_congr hprops
  obtain ⟨x₂, report₂, q₂, hbuild₂, hplan₂, hi₂, -, howner₂, hsame₂, -, hdone₂⟩ :=
    hbuilds p₂ hp₂ c₂ hfree₂ sink₂ (by rw [Site.read]; exact hget ▸ hq.inert)
  refine ⟨x₂.inst, report₂, q₂, withHost_eq_some.mpr hbuild₂, ?_⟩
  have hread : x₂.read q₂ = x.read q := by
    rw [View.read_sameState hsame₂, View.read, howner₂]
    exact hget
  rw [hi, hi₂]
  refine hcurrent.subtree_eq hdone₂ (hplan₂.trans hplan.symm) hread fun sub hsub place hplace => ?_
  have hspec := hplaces sub (hplan ▸ hsub) place hplace
  obtain ⟨v, hv⟩ := hok place.2 hspec
  exact ⟨v, (hq.eval (hspecs _ hspec).1).symm.trans hv⟩

def sampleHandler : Handler :=
  .assign "name = name + '!'" "name" (.binary .add (.prop "name") (.literal (.text "!")))

def sampleSalute : ValueSpec :=
  Expr.toSpec (.concat [.literal (.text "Hello "), .prop "name"]) "Hello \x7bname\x7d"

/-- A button that greets by a name and makes it louder when it is clicked. -/
def sampleGreeting : TemplateNode :=
  .node { NodeHead.ofTag "button" with
      attributes := [("title", .property "name"), ("data-name", .property "name")],
      events := [("click", sampleHandler)] }
    [.text sampleSalute]

def sampleGreetingTemplate : Template :=
  .ofPlan {} sampleGreeting.size (sampleGreeting.rootPlan (fun _ => none) {})

def sampleGreetingPage : Page :=
  samplePage [("name", .text "a")]

/-- A page for building anew, with a component that has the given properties. -/
def sampleFreshPage (props : Dict Value) : Page :=
  (Page.empty.addComponent { Component.named "fresh" with props := props }).2

theorem sampleFreshPage_plain (props : Dict Value) : (sampleFreshPage props).Plain :=
  ⟨rfl, rfl⟩

def sampleMoves : List Move :=
  [.set "name" (.text "b"), .deliver, .dispatch 1 "click" .null, .notify "title"]

/-- The listeners that a click on the greeting meets once it is built. -/
theorem sampleGreeting_listeners :
    (sampleGreetingTemplate.instantiate 0 none .caller sampleGreetingPage).map
      (fun r => r.2.document.listenersFor 1 "click") = some [.component 0 sampleHandler] := by
  rfl

/-- Whether the component is free after the moves, and what the greeting says then. -/
def sampleGreetingMoved : Act (Option (Access × Option String)) := do
  match ← sampleGreetingTemplate.instantiate 0 none .caller with
  | .error _ => return none
  | .ok (i, _) =>
    runMoves i (sampleMoves ++ [.deliver])
    let p ← get
    return some (p.access 0, p.document.text? 1)

theorem sampleGreetingMoved_text :
    (sampleGreetingMoved sampleGreetingPage).map (·.1) = some (some (.free, some "Hello b!")) := by
  decide +kernel

theorem sampleGreeting_compiled :
    ∃ maps, compileWith sampleGreetingPage.registry.declared .empty {} sampleGreeting =
      (.ok sampleGreetingTemplate, maps) :=
  ⟨_, rfl⟩

theorem sampleGreeting_distinct :
    sampleGreeting.DistinctTargets sampleGreetingPage.registry.declared .html :=
  ⟨by decide, trivial, trivial⟩

theorem sampleGreetingPage_inert (name : String) : ((sampleGreetingPage.component 0).get name).Inert := by
  change ((if name = "name" then some (Value.text "a") else none).getD .null).Inert
  split <;> trivial

theorem mem_specs_sampleGreeting {spec : ValueSpec} (h : spec ∈ sampleGreeting.specs) :
    spec = .property "name" ∨ spec = sampleSalute := by
  have hspecs : sampleGreeting.specs = [.property "name", .property "name", sampleSalute] := rfl
  simpa [hspecs] using h

theorem sampleGreeting_specs : ∀ spec ∈ sampleGreeting.specs,
    spec.FromLanguage ∧ spec.value.formula.CallbackFree := by
  intro spec hspec
  rcases mem_specs_sampleGreeting hspec with rfl | rfl
  · exact ⟨.property "name", trivial⟩
  · exact ⟨.expression .., trivial, trivial, trivial⟩

theorem sampleMoves_admissible {d : Document} (h : d.listenersFor 1 "click" = [.component 0 sampleHandler]) :
    ∀ m ∈ sampleMoves, m.Admissible d 0 := by
  intro m hm
  simp only [sampleMoves, List.mem_cons, List.not_mem_nil, or_false] at hm
  rcases hm with rfl | rfl | rfl | rfl
  · trivial
  · trivial
  · refine ⟨trivial, fun l hl => ?_⟩
    rw [h] at hl
    cases List.mem_singleton.mp hl
    exact ⟨_, _, _, rfl, trivial, trivial⟩
  · trivial

theorem sampleGreetingMoved_eq {i : Instance} {report : Report} {built q : Page}
    (hbuild : sampleGreetingTemplate.instantiate 0 none .caller sampleGreetingPage =
      some (.ok (i, report), built))
    (hrun : runMoves i (sampleMoves ++ [.deliver]) built = some ((), q)) :
    q.access 0 = .free ∧ q.document.text? 1 = some "Hello b!" := by
  have hmoved : sampleGreetingMoved sampleGreetingPage =
      some (some (q.access 0, q.document.text? 1), q) := by
    simp only [sampleGreetingMoved, Act.bind_eq_some]
    refine ⟨_, built, hbuild, ?_⟩
    simp only [Act.bind_eq_some, Act.get_eq_some, Act.pure_eq_some]
    exact ⟨(), q, hrun, q, q, ⟨rfl, rfl⟩, rfl, rfl⟩
  have htext := sampleGreetingMoved_text
  rw [hmoved] at htext
  exact Prod.mk.inj (Option.some.inj (Option.some.inj htext))

theorem sampleGreeting_evaluates {q : Page} (hfree : q.access 0 = .free) :
    ∀ spec ∈ sampleGreeting.specs, ∃ v, q.valueFor 0 spec = .ok v := by
  intro spec hspec
  rw [Page.valueFor, Page.eval_of_free hfree (sampleGreeting_specs spec hspec).1]
  rcases mem_specs_sampleGreeting hspec with rfl | rfl <;> exact ⟨_, rfl⟩

theorem refresh_agrees_with_rebuild_sampleGreeting :
    ∃ i report built q, sampleGreetingTemplate.instantiate 0 none .caller sampleGreetingPage =
        some (.ok (i, report), built) ∧ (∀ m ∈ sampleMoves, m.Admissible built.document 0) ∧
      runMoves i (sampleMoves ++ [.deliver]) built = some ((), q) ∧ q.document.text? 1 = some "Hello b!" ∧
      ∃ i₂ report₂ q₂, sampleGreetingTemplate.instantiate 0 none .caller
          (sampleFreshPage (q.component 0).props) = some (.ok (i₂, report₂), q₂) ∧
        q₂.document.subtree i₂.root = q.document.subtree i.root := by
  have hp : sampleGreetingPage.Plain := samplePage_plain _
  obtain ⟨maps, h⟩ := sampleGreeting_compiled
  obtain ⟨i, report, built, hbuild, hmoves⟩ := refresh_agrees_with_rebuild hp h rfl
    sampleGreeting_specs sampleGreeting_distinct (c := 0) (by decide) rfl sampleGreetingPage_inert .caller
  have hlisteners := sampleGreeting_listeners
  rw [hbuild] at hlisteners
  have hadmissible := sampleMoves_admissible (Option.some.inj hlisteners)
  obtain ⟨q, hrun, hagrees⟩ := hmoves sampleMoves hadmissible
  obtain ⟨hfree, htext⟩ := sampleGreetingMoved_eq hbuild hrun
  have hfresh := hagrees (sampleGreeting_evaluates hfree) (sampleFreshPage (q.component 0).props) 0 .caller
    (sampleFreshPage_plain _) rfl rfl
  exact ⟨i, report, built, q, hbuild, hadmissible, hrun, htext, hfresh⟩

end LiveMarkup
