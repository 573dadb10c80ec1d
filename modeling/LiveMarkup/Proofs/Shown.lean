import LiveMarkup.Proofs.Language
import LiveMarkup.Proofs.Memory
import LiveMarkup.Proofs.Places
import Mathlib.Data.List.Nodup

namespace LiveMarkup

namespace Plan

/-- The attributes of a node write to targets that share nothing. -/
def Separate : Plan → Prop
  | .element head _ => (head.attributes.map (·.1)).Pairwise Target.Apart
  | .text .. => True

/-- A node shows nothing but the values last written to it, and each is good for the place it comes from. -/
def ShownBy (owner : ComponentId) (good : Op × ValueSpec → Option Value → Prop) : Plan → NodeKind → Prop
  | .element head _, .element e =>
    ∃ memory : Memory, memory.Inert ∧
      e.bare = (Element.ofTag head.tag head.ns).replay owner memory (head.attributes.map (·.1)) ∧
      ∀ a ∈ head.attributes, good (a.1.op head.slot a.2.value, a.2) (memory a.1)
  | .text slot spec, .text s =>
    ∃ shown : Option Value, s = (shown.map Value.display).getD "" ∧ good (.setText slot spec.value, spec) shown
  | _, _ => False

theorem ShownBy.mono {owner : ComponentId} {good good' : Op × ValueSpec → Option Value → Prop} {plan : Plan}
    {kind : NodeKind} (h : plan.ShownBy owner good kind)
    (hgood : ∀ place ∈ plan.places, ∀ shown, good place shown → good' place shown) :
    plan.ShownBy owner good' kind := by
  cases plan with
  | element head children =>
    cases kind with
    | text s => exact h.elim
    | element e =>
      obtain ⟨memory, hmemory, hbare, hall⟩ := h
      exact ⟨memory, hmemory, hbare, fun a ha => hgood _ (List.mem_map.mpr ⟨a, ha, rfl⟩) _ (hall a ha)⟩
  | text slot spec =>
    cases kind with
    | element e => exact h.elim
    | text s =>
      obtain ⟨shown, htext, hshown⟩ := h
      exact ⟨shown, htext, hgood _ List.mem_cons_self _ hshown⟩

end Plan

/-- A value is that of its spec, unless the spec fails or its instruction is due. -/
def Settled (read : String → Value) (due : Op → List String → Prop) (place : Op × ValueSpec)
    (shown : Option Value) : Prop :=
  due place.1 place.2.deps ∨ ∀ v, place.2.evalIn read = .ok v → shown = some v

namespace Plan.ShownBy

variable {owner : ComponentId} {read : String → Value} {due : Op → List String → Prop}

/-- Writing the present value of an attribute settles it. -/
theorem write {head : PlanHead} {children : List Plan} {e : Element} {a : Target × ValueSpec} {v : Value}
    (h : ShownBy owner (Settled read due) (.element head children) (.element e))
    (hapart : (Plan.element head children).Separate) (ha : a ∈ head.attributes)
    (hv : a.2.evalIn read = .ok v) (hinert : v.Inert) :
    ShownBy owner (Settled read fun op deps => due op deps ∧ op ≠ a.1.op head.slot a.2.value)
      (.element head children) (.element (e.write owner a.1 v)) := by
  obtain ⟨memory, hmemory, hbare, hall⟩ := h
  have htarget : a.1 ∈ head.attributes.map (·.1) := List.mem_map_of_mem ha
  refine ⟨memory.write a.1 v, hmemory.write hinert, ?_, fun b hb => ?_⟩
  · rw [Element.bare_write owner e a.1 hinert, hbare, Element.replay_write hmemory hinert hapart htarget]
  · by_cases hsame : b.1 = a.1
    · -- two attributes never have one target, so this is the one written
      have hnodup : (head.attributes.map (·.1)).Nodup := hapart.imp fun h => h.ne
      obtain rfl : b = a := List.inj_on_of_nodup_map hnodup hb ha hsame
      refine Or.inr fun w hw => ?_
      rw [hv] at hw
      cases hw
      exact if_pos rfl
    · have hkept : memory.write a.1 v b.1 = memory b.1 := if_neg hsame
      rw [hkept]
      refine (hall b hb).imp_left fun hdue => ⟨hdue, fun heq => hsame (Target.op_inj heq).1⟩

theorem setText {slot : Slot} {spec : ValueSpec} {v : Value} (hv : spec.evalIn read = .ok v) :
    ShownBy owner (Settled read due) (.text slot spec) (.text v.display) := by
  refine ⟨some v, rfl, Or.inr fun w hw => ?_⟩
  rw [hv] at hw
  cases hw
  rfl

end Plan.ShownBy

end LiveMarkup
