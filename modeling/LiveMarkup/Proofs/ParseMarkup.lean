import LiveMarkup.Proofs.EmbeddedSources
import LiveMarkup.Proofs.MarkupPieces

namespace LiveMarkup

section Heads

/-- What an attribute says of its element. -/
inductive AttributeMeaning where
  | bound (name source : String)
  | event (name source : String)
  | attachPoints (names : List String)
  | declaredNs (ns : Option String)
  | flag (name : String)
  | text (name content : String)

/-- A colon makes an attribute an expression, its own name where it has no value, and an at sign makes it an
event. Two names have a meaning of their own. -/
def attributeMeaning : String × Option String → AttributeMeaning := fun (name, value) =>
  match name.toList with
  | ':' :: rest => .bound (String.ofList rest) (value.getD (String.ofList rest))
  | '@' :: rest => .event (String.ofList rest) (value.getD "")
  | _ =>
    if name = "attach-point" then .attachPoints (listedNames (value.getD ""))
    else if name = "xmlns" then .declaredNs value
    else value.elim (.flag name) (.text name)

namespace AttributeMeaning

@[simp] def embedded : AttributeMeaning → List Embedded
  | .bound _ source => [.expression source]
  | .event _ source => [.handler source]
  | .text _ content => embeddedIn content
  | _ => []

@[simp] def attribute? : AttributeMeaning → Option (String × ValueSpec)
  | .bound name source => (Expr.parse source).toOption.map fun e => (name, e.toSpec (String.ofList (stripped source.toList)))
  | .flag name => some (name, .constant (.bool true))
  | .text name content => some (name, interpolation content)
  | _ => none

@[simp] def event? : AttributeMeaning → Option (String × Handler)
  | .event name source => (Handler.parse source).toOption.map fun h => (name, h)
  | _ => none

@[simp] def attachNames : AttributeMeaning → List String
  | .attachPoints names => names
  | _ => []

@[simp] def ns? : AttributeMeaning → Option (Option String)
  | .declaredNs ns => some ns
  | _ => none

end AttributeMeaning

/-- The head of an element with more attributes. The last namespace that they declare counts. -/
def NodeHead.extended (head : NodeHead) (meanings : List AttributeMeaning) : NodeHead :=
  { head with
    ns := (meanings.reverse.findSome? AttributeMeaning.ns?).getD head.ns
    attachPoints := head.attachPoints ++ meanings.flatMap AttributeMeaning.attachNames
    attributes := head.attributes ++ meanings.filterMap AttributeMeaning.attribute?
    events := head.events ++ meanings.filterMap AttributeMeaning.event? }

theorem NodeHead.extended_append (head : NodeHead) (ms more : List AttributeMeaning) :
    head.extended (ms ++ more) = (head.extended ms).extended more := by
  simp [NodeHead.extended, Option.getD_or]

theorem NodeHead.extended_singleton (head : NodeHead) (m : AttributeMeaning) :
    head.extended [m] = { head with
      ns := m.ns?.getD head.ns
      attachPoints := head.attachPoints ++ m.attachNames
      attributes := head.attributes ++ m.attribute?.toList
      events := head.events ++ m.event?.toList } := by
  have hone : ∀ {α : Type} (f : AttributeMeaning → Option α), [m].filterMap f = (f m).toList := by
    intro α f
    cases hm : f m <;> simp [hm]
  simp only [NodeHead.extended, hone, List.reverse_singleton, List.findSome?_singleton, List.flatMap_singleton]

theorem NodeHead.addAttribute_eq (head : NodeHead) (name : String) (value : Option String) :
    head.addAttribute name value =
      verdict (attributeMeaning (name, value)).embedded (head.extended [attributeMeaning (name, value)]) := by
  rw [NodeHead.extended_singleton]
  unfold NodeHead.addAttribute attributeMeaning
  split
  next rest heq =>
    simp only [heq]
    refine parse_bind (.expression _) rfl fun e he => ?_
    simp only [AttributeMeaning.attribute?, AttributeMeaning.event?, he]
    simp [verdict, Except.toOption, pure, Except.pure, trimText_eq]
  next rest heq =>
    simp only [heq]
    refine parse_bind (.handler _) rfl fun e he => ?_
    simp only [AttributeMeaning.attribute?, AttributeMeaning.event?, he]
    simp [verdict, Except.toOption, pure, Except.pure]
  next =>
    by_cases hattach : name = "attach-point"
    · simp only [if_pos hattach]
      simp [verdict, attachNames_eq_listedNames]
    by_cases hxmlns : name = "xmlns"
    · simp only [if_neg hattach, if_pos hxmlns]
      simp [verdict]
    simp only [if_neg hattach, if_neg hxmlns]
    cases value with
    | none => simp [verdict]
    | some content =>
      simp only [Option.elim_some, ofInterpolated_eq]
      apply verdict_bind_ok
      simp [pure, Except.pure]

theorem NodeHead.addAttributes_eq (head : NodeHead) (as : List (String × Option String)) :
    head.addAttributes as =
      verdict ((as.map attributeMeaning).flatMap AttributeMeaning.embedded)
        (head.extended (as.map attributeMeaning)) := by
  induction as generalizing head with
  | nil => simp [NodeHead.extended, verdict, NodeHead.addAttributes]
  | cons a as ih =>
    rw [NodeHead.addAttributes, NodeHead.addAttribute_eq, List.map_cons, List.flatMap_cons]
    apply verdict_bind
    rw [ih, ← NodeHead.extended_append]
    rfl

end Heads

section Nodes

mutual

/-- What is embedded in markup, in document order. -/
def Markup.embedded : Markup → List Embedded
  | .text run => embeddedIn (String.ofList (unindented run))
  | .comment _ => []
  | .element _ attributes children =>
    (attributes.map attributeMeaning).flatMap AttributeMeaning.embedded ++ Markup.embeddedAll children

def Markup.embeddedAll : List Markup → List Embedded
  | [] => []
  | m :: ms => m.embedded ++ Markup.embeddedAll ms

end

/-- Two tags imply the namespace of the same name. -/
def impliedNs (tag : String) : Option String :=
  if tag ∈ ["svg", "math"] then some tag else none

/-- The head of an element as its tag and attributes say it. The last namespace that they declare counts. -/
def writtenHead (tag : String) (meanings : List AttributeMeaning) : NodeHead where
  tag := tag
  ns := (meanings.reverse.findSome? AttributeMeaning.ns?).getD (impliedNs tag)
  attachPoints := meanings.flatMap AttributeMeaning.attachNames
  attributes := meanings.filterMap AttributeMeaning.attribute?
  events := meanings.filterMap AttributeMeaning.event?
  expression := none

mutual

/-- The nodes that markup leaves: comments and text that is indentation only leave none. -/
def Markup.nodes : Markup → List TemplateNode
  | .text run =>
    if unindented run = [] then [] else [.text (interpolation (String.ofList (unindented run)))]
  | .comment _ => []
  | .element tag attributes children =>
    [.node (writtenHead tag (attributes.map attributeMeaning)) (Markup.nodesAll children)]

def Markup.nodesAll : List Markup → List TemplateNode
  | [] => []
  | m :: ms => m.nodes ++ Markup.nodesAll ms

end

theorem NodeHead.initial_extended (tag : String) (meanings : List AttributeMeaning) :
    (NodeHead.initial tag).extended meanings = writtenHead tag meanings := by
  have hns : (NodeHead.initial tag).ns = impliedNs tag := by
    simp only [NodeHead.initial, impliedNs, List.mem_cons, List.not_mem_nil, or_false]
    by_cases hsvg : tag = "svg"
    · simp [hsvg]
    · by_cases hmath : tag = "math" <;> simp [hsvg, hmath]
  rw [NodeHead.extended, hns]
  rfl

theorem ofSource_text (run : List Char) :
    TemplateNode.ofSource (.text run) =
      verdict (Markup.text run).embedded (.text (interpolation (String.ofList (unindented run)))) := by
  rw [TemplateNode.ofSource, ofInterpolated_eq, Markup.embedded, trimIndentation_eq_unindented]
  exact verdict_bind_ok rfl

theorem ofSource_element {tag : String} {attributes : List (String × Option String)} (children : List Markup)
    {inner : List SourceNode} {closedBy : Option String} (hclosed : ∀ close ∈ closedBy, close = tag)
    (hinner : TemplateNode.ofSources inner = verdict (Markup.embeddedAll children) (Markup.nodesAll children)) :
    TemplateNode.ofSource (.element tag attributes inner closedBy) =
      verdict (Markup.element tag attributes children).embedded
        (.node (writtenHead tag (attributes.map attributeMeaning)) (Markup.nodesAll children)) := by
  rw [TemplateNode.ofSource, NodeHead.addAttributes_eq, NodeHead.initial_extended, Markup.embedded]
  apply verdict_bind
  rw [hinner]
  cases closedBy with
  | none => exact verdict_bind_ok rfl
  | some close =>
    cases hclosed close rfl
    simp only [if_true]
    exact verdict_bind_ok rfl

/-- Nodes are read in document order, up to the first refusal. -/
theorem Markup.NestsAs.ofSources {ms : List Markup} {nodes : List SourceNode} (h : Markup.NestsAs ms nodes) :
    TemplateNode.ofSources nodes = verdict (Markup.embeddedAll ms) (Markup.nodesAll ms) := by
  induction h with
  | nil => rfl
  | @text run ms nodes _ ih =>
    rw [TemplateNode.ofSources, Markup.embeddedAll, Markup.embedded, Markup.nodesAll, Markup.nodes,
      trimIndentation_eq_unindented]
    by_cases hrun : unindented run = []
    · rw [if_pos hrun, if_pos hrun, hrun, ih]
      rfl
    · rw [if_neg hrun, if_neg hrun, ofSource_text, ih, Markup.embedded]
      apply verdict_bind
      exact verdict_bind_ok rfl
  | comment _ ih => exact ih
  | @selfClosed tag attributes ms nodes _ ih =>
    rw [TemplateNode.ofSources, ofSource_element [] (by simp) rfl, ih]
    apply verdict_bind
    exact verdict_bind_ok rfl
  | @element tag attributes children ms inner nodes _ _ ihChildren ih =>
    rw [TemplateNode.ofSources, ofSource_element children (by simp) ihChildren, ih]
    apply verdict_bind
    exact verdict_bind_ok rfl

end Nodes

section Roots

/-- Markup that may stand around the root: comments and blank text. -/
def Markup.isFiller : Markup → Bool
  | .text run => run.all blank
  | .comment _ => true
  | .element .. => false

theorem readRoots_filler {m : Markup} {ms : List Markup} {nodes : List SourceNode} (hm : m.isFiller = true)
    (h : Markup.NestsAs (m :: ms) nodes) :
    ∃ rest, Markup.NestsAs ms rest ∧ readRoots nodes = readRoots rest := by
  cases h with
  | @text run _ rest h =>
    refine ⟨rest, h, ?_⟩
    have hblank : run.all isBlank = true := by
      rw [isBlank_eq_blank]
      exact hm
    simp only [readRoots, hblank, if_true]
    cases readRoots rest <;> rfl
  | comment h => exact ⟨nodes, h, rfl⟩
  | selfClosed | element => cases hm

theorem readRoots_fillers {before ms : List Markup} (hbefore : ∀ m ∈ before, m.isFiller = true)
    {nodes : List SourceNode} (h : Markup.NestsAs (before ++ ms) nodes) :
    ∃ rest, Markup.NestsAs ms rest ∧ readRoots nodes = readRoots rest := by
  induction before generalizing nodes with
  | nil => exact ⟨nodes, h, rfl⟩
  | cons m before ih =>
    obtain ⟨hm, hbefore⟩ := List.forall_mem_cons.mp hbefore
    obtain ⟨more, hmore, hread⟩ := readRoots_filler hm h
    obtain ⟨rest, hrest, hread'⟩ := ih hbefore hmore
    exact ⟨rest, hrest, hread.trans hread'⟩

theorem readRoots_root {tag : String} {attributes : List (String × Option String)} {children after : List Markup}
    {nodes : List SourceNode} (hafter : ∀ m ∈ after, m.isFiller = true)
    (h : Markup.NestsAs (.element tag attributes children :: after) nodes) :
    readRoots nodes = verdict (Markup.element tag attributes children).embedded
      ([.node (writtenHead tag (attributes.map attributeMeaning)) (Markup.nodesAll children)], 0) := by
  have hend : ∀ {rest : List SourceNode}, Markup.NestsAs after rest → readRoots rest = .ok ([], 0) := by
    intro rest hrest
    rw [← List.append_nil after] at hrest
    obtain ⟨last, hlast, hread⟩ := readRoots_fillers hafter hrest
    cases hlast
    exact hread
  cases h with
  | selfClosed h =>
    rw [readRoots, ofSource_element [] (by simp) rfl, hend h]
    exact verdict_bind_ok rfl
  | element hchildren h =>
    rw [readRoots, ofSource_element children (by simp) hchildren.ofSources, hend h]
    exact verdict_bind_ok rfl

/-- Reading inverts printing, with comments and blank text around the root. The nodes are those that the markup
stands for if nothing embedded is refused. Otherwise the answer is the first refusal in document order. What is
embedded in a text stands between double braces. -/
theorem parse_inverts_markup_printing :
    (∀ (before after children : List Markup) (tag : String) (attributes : List (String × Option String))
      (source : String), (∀ m ∈ before, m.isFiller = true) → (∀ m ∈ after, m.isFiller = true) →
      Markup.Printed (before ++ .element tag attributes children :: after) source.toList →
      ((∀ s ∈ (Markup.element tag attributes children).embedded, s.flaw? = none) →
        TemplateNode.parse source =
          .ok (.node (writtenHead tag (attributes.map attributeMeaning)) (Markup.nodesAll children))) ∧
      ∀ e, (Markup.element tag attributes children).embedded.findSome? Embedded.flaw? = some e →
        TemplateNode.parse source = .error e) ∧
    ∀ text : List Char, Interpolated text (spans text) := by
  refine ⟨?_, interpolated_spans⟩
  intro before after children tag attributes source hbefore hafter h
  have hparse : TemplateNode.parse source = verdict (Markup.element tag attributes children).embedded
      (.node (writtenHead tag (attributes.map attributeMeaning)) (Markup.nodesAll children)) := by
    obtain ⟨nodes, hnodes, hsource⟩ := h.sourceNodes?_eq
    obtain ⟨rest, hrest, hread⟩ := readRoots_fillers hbefore hnodes
    rw [TemplateNode.parse, hsource]
    simp only
    rw [hread, readRoots_root hafter hrest]
    exact verdict_bind_ok rfl
  rw [hparse, verdict]
  constructor
  · intro hnone
    rw [List.findSome?_eq_none_iff.mpr hnone]
    rfl
  · intro e he
    rw [he]
    rfl

/-- A root with attributes of five kinds, a child that closes itself and text with an expression in it, with a
comment in front. -/
def sampleBadge : String :=
  "\n<!-- badge --><svg :w = \"n\" hidden attach-point=' a,\t,b' t='\x7b\x7b n \x7d\x7d'>\n <br/>hi \x7b\x7bn\x7d\x7d!</svg >\n"

def sampleBadgeAttributes : List (String × Option String) :=
  [(":w", some "n"), ("hidden", none), ("attach-point", some " a,\t,b"), ("t", some "\x7b\x7b n \x7d\x7d")]

def sampleBadgeChildren : List Markup :=
  [.text ['\n', ' '], .element "br" [] [], .text (String.toList "hi \x7b\x7bn\x7d\x7d!")]

theorem sampleBadgeAttributes_printed : AttributesPrinted sampleBadgeAttributes
    (String.toList " :w = \"n\" hidden attach-point=' a,\t,b' t='\x7b\x7b n \x7d\x7d'") := by
  have hgap : IsGap [' '] := isGap_of_all rfl
  have hw : AttributePrinted (":w", some "n") (String.toList ":w = \"n\"") :=
    @AttributePrinted.valued ":w" "n" [' '] [' '] '"'
      (@isAttributeName_of_class [':'] ['w'] (by decide) (by decide) (by decide) (List.all_eq_true.mp rfl))
      hgap hgap (.inl rfl) (by decide)
  have hhidden : AttributePrinted ("hidden", none) (String.toList "hidden") :=
    .bare (@isAttributeName_of_class [] (String.toList "hidden") (by decide) (by decide) (by decide)
      (List.all_eq_true.mp rfl))
  have hpoints : AttributePrinted ("attach-point", some " a,\t,b") (String.toList "attach-point=' a,\t,b'") :=
    @AttributePrinted.valued "attach-point" " a,\t,b" [] [] '\''
      (@isAttributeName_of_class [] (String.toList "attach-point") (by decide) (by decide) (by decide)
        (List.all_eq_true.mp rfl)) isGap_nil isGap_nil (.inr rfl) (by decide)
  have ht : AttributePrinted ("t", some "\x7b\x7b n \x7d\x7d") (String.toList "t='\x7b\x7b n \x7d\x7d'") :=
    @AttributePrinted.valued "t" "\x7b\x7b n \x7d\x7d" [] [] '\''
      (@isAttributeName_of_class [] ['t'] (by decide) (by decide) (by decide) (List.all_eq_true.mp rfl))
      isGap_nil isGap_nil (.inr rfl) (by decide)
  exact @AttributesPrinted.cons _ _ [' '] _ _ (by decide) hgap hw
    (@AttributesPrinted.cons _ _ [' '] _ _ (by decide) hgap hhidden
      (@AttributesPrinted.cons _ _ [' '] _ _ (by decide) hgap hpoints
        (@AttributesPrinted.cons _ _ [' '] _ _ (by decide) hgap ht .nil)))

theorem sampleBadge_printed :
    Markup.Printed ([.text ['\n'], .comment (String.toList " badge ")] ++
      .element "svg" sampleBadgeAttributes sampleBadgeChildren :: [.text ['\n']]) sampleBadge.toList := by
  have hgap : IsGap [' '] := isGap_of_all rfl
  have hrun : IsTextRun (String.toList "hi \x7b\x7bn\x7d\x7d!") := by
    have hcode : ¬ closingBraces <:+: ['n'] ++ ['\x7d'] := by decide
    exact .char (by decide) (by decide) (.char (by decide) (by decide) (.char (by decide) (by decide)
      (.code hcode (isTextRun_of_plain rfl))))
  have hhi : Markup.Printed [.text (String.toList "hi \x7b\x7bn\x7d\x7d!")] (String.toList "hi \x7b\x7bn\x7d\x7d!") :=
    @Markup.Printed.text (String.toList "hi \x7b\x7bn\x7d\x7d!") [] [] (by decide) hrun (by simp) .nil
  have hbr : Markup.Printed [.element "br" [] [], .text (String.toList "hi \x7b\x7bn\x7d\x7d!")]
      (String.toList "<br/>hi \x7b\x7bn\x7d\x7d!") :=
    @Markup.Printed.selfClosed "br" [] [] [] _ _ (@isTagName_of_class 'b' ['r'] rfl (List.all_eq_true.mp rfl)) .nil
      isGap_nil hhi
  have hchildren : Markup.Printed sampleBadgeChildren (String.toList "\n <br/>hi \x7b\x7bn\x7d\x7d!") :=
    .text (by decide) (isTextRun_of_plain rfl) (by simp [Markup.isText]) hbr
  have hend : Markup.Printed [.text ['\n']] (String.toList "\n") :=
    @Markup.Printed.text ['\n'] [] [] (by decide) (isTextRun_of_plain rfl) (by simp) .nil
  have hroot : Markup.Printed (.element "svg" sampleBadgeAttributes sampleBadgeChildren :: [.text ['\n']])
      (String.toList ("<svg :w = \"n\" hidden attach-point=' a,\t,b' t='\x7b\x7b n \x7d\x7d'>" ++
        "\n <br/>hi \x7b\x7bn\x7d\x7d!</svg >\n")) :=
    @Markup.Printed.element "svg" sampleBadgeAttributes _ [] _ [' '] _ _ _
      (@isTagName_of_class 's' ['v', 'g'] rfl (List.all_eq_true.mp rfl))
      sampleBadgeAttributes_printed isGap_nil hchildren hgap hend
  have hwords : ¬ ['-', '-', '>'] <:+: String.toList " badge " :=
    fun h => absurd (h.subset (List.mem_cons_self : '-' ∈ ['-', '-', '>'])) (by decide)
  exact @Markup.Printed.text ['\n'] _ _ (by decide) (isTextRun_of_plain rfl) (by simp [Markup.isText])
    (.comment hwords hroot)

/-- Double braces that are never closed in front of an expression without operands. -/
def sampleFlaws : String :=
  "<a b='\x7b\x7b' :c='+'/>"

theorem sampleFlaws_printed :
    Markup.Printed ([] ++ [.element "a" [("b", some "\x7b\x7b"), (":c", some "+")] []]) sampleFlaws.toList := by
  have hgap : IsGap [' '] := isGap_of_all rfl
  have hb : AttributePrinted ("b", some "\x7b\x7b") (String.toList "b='\x7b\x7b'") :=
    @AttributePrinted.valued "b" "\x7b\x7b" [] [] '\''
      (@isAttributeName_of_class [] ['b'] (by decide) (by decide) (by decide) (List.all_eq_true.mp rfl))
      isGap_nil isGap_nil (.inr rfl) (by decide)
  have hc : AttributePrinted (":c", some "+") (String.toList ":c='+'") :=
    @AttributePrinted.valued ":c" "+" [] [] '\''
      (@isAttributeName_of_class [':'] ['c'] (by decide) (by decide) (by decide) (List.all_eq_true.mp rfl))
      isGap_nil isGap_nil (.inr rfl) (by decide)
  exact @Markup.Printed.selfClosed "a" _ _ [] [] _ (@isTagName_of_class 'a' [] rfl (List.all_eq_true.mp rfl))
    (@AttributesPrinted.cons _ _ [' '] _ _ (by decide) hgap hb
      (@AttributesPrinted.cons _ _ [' '] _ _ (by decide) hgap hc .nil))
    isGap_nil .nil

section Badge

theorem parse_of_spaced_n {source : String} (h : Spaced [.word "n"] source.toList) :
    Expr.parse source = .ok (.prop "n") :=
  @Expr.parse_of_printed _ _ true _ (.prop (by decide)) h

theorem parse_n : Expr.parse "n" = .ok (.prop "n") :=
  parse_of_spaced_n (.adjacent (Token.spelled_word rfl (List.all_eq_true.mp rfl)) (.done isGap_nil))

theorem parse_n_gaps : Expr.parse " n " = .ok (.prop "n") :=
  parse_of_spaced_n (.layout (.adjacent (Token.spelled_word rfl (List.all_eq_true.mp rfl))
    (.done (isGap_of_all rfl))) rfl)

theorem sampleBadge_row : interpolation "hi \x7b\x7bn\x7d\x7d!" =
    (Expr.concat [.literal (.text "hi "), .prop "n", .literal (.text "!")]).toSpec "hi \x7b\x7bn\x7d\x7d!" := by
  have hspans : spans (String.toList "hi \x7b\x7bn\x7d\x7d!") =
      [.literal ['h', 'i', ' '], .code ['n'], .literal ['!']] := by decide
  have hopen : (Span.code ['n']).openExpr? = some (.prop "n") := by
    rw [Span.openExpr?, show String.ofList ['n'] = "n" from rfl, parse_n]
  have hpart : (Span.code ['n']).part? = some (.prop "n") := by
    rw [Span.part?, show String.ofList ['n'] = "n" from rfl, parse_n]
    rfl
  rw [interpolation_row, hspans]
  · simp only [List.filterMap_cons, hpart]
    rfl
  · rw [hspans]
    simp [hopen]
  · rw [hspans]
    simp

theorem sampleBadge_attributes :
    (sampleBadgeAttributes.map attributeMeaning).filterMap AttributeMeaning.attribute? =
      [("w", (Expr.prop "n").toSpec "n"), ("hidden", .constant (.bool true)), ("t", (Expr.prop "n").toSpec "n")] := by
  have hw : (attributeMeaning (":w", some "n")).attribute? = some ("w", (Expr.prop "n").toSpec "n") := by
    change (Expr.parse "n").toOption.map _ = _
    rw [parse_n]
    rfl
  have hhidden : (attributeMeaning ("hidden", none)).attribute? = some ("hidden", .constant (.bool true)) := rfl
  have hpoints : (attributeMeaning ("attach-point", some " a,\t,b")).attribute? = none := rfl
  have ht : (attributeMeaning ("t", some "\x7b\x7b n \x7d\x7d")).attribute? =
      some ("t", (Expr.prop "n").toSpec "n") := by
    change some ("t", interpolation "\x7b\x7b n \x7d\x7d") = _
    have hspans : spans (String.toList "\x7b\x7b n \x7d\x7d") = [.literal [], .code [' ', 'n', ' '], .literal []] := by
      decide
    rw [interpolation_lone hspans parse_n_gaps rfl]
    rfl
  simp only [sampleBadgeAttributes, List.map_cons, List.map_nil, List.filterMap_cons, hw, hhidden, hpoints, ht,
    List.filterMap_nil]

theorem sampleBadge_embedded : (Markup.element "svg" sampleBadgeAttributes sampleBadgeChildren).embedded =
    [.expression "n", .expression " n ", .expression "n"] := by
  rfl

end Badge

theorem parse_inverts_markup_printing_samples :
    Markup.Printed ([.text ['\n'], .comment (String.toList " badge ")] ++
      .element "svg" sampleBadgeAttributes sampleBadgeChildren :: [.text ['\n']]) sampleBadge.toList ∧
    TemplateNode.parse sampleBadge =
      .ok (.node ⟨"svg", some "svg", ["a", "b"], [("w", (Expr.prop "n").toSpec "n"), ("hidden", .constant (.bool true)),
        ("t", (Expr.prop "n").toSpec "n")], [], none⟩ [.node (.ofTag "br") [],
          .text ((Expr.concat [.literal (.text "hi "), .prop "n", .literal (.text "!")]).toSpec "hi \x7b\x7bn\x7d\x7d!")]) ∧
    TemplateNode.parse sampleFlaws = .error (.expression "\x7b\x7b" .unterminated) := by
  have hflaws : ∀ s ∈ (Markup.element "svg" sampleBadgeAttributes sampleBadgeChildren).embedded, s.flaw? = none := by
    rw [sampleBadge_embedded]
    simp [Embedded.flaw?, parse_n, parse_n_gaps, refusal?]
  have hpoints : (sampleBadgeAttributes.map attributeMeaning).flatMap AttributeMeaning.attachNames = ["a", "b"] := by
    decide
  refine ⟨sampleBadge_printed, ?_, ?_⟩
  · rw [(parse_inverts_markup_printing.1 _ _ _ _ _ _ (by decide) (by decide) sampleBadge_printed).1 hflaws,
      writtenHead, sampleBadge_attributes, hpoints, ← sampleBadge_row]
    rfl
  · exact (parse_inverts_markup_printing.1 [] [] _ _ _ _ (by decide) (by decide) sampleFlaws_printed).2 _ rfl

end Roots

end LiveMarkup
