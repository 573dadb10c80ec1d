import LiveMarkup.Page.Basic
import LiveMarkup.Template.Cache
import Mathlib.Data.List.Dedup

namespace LiveMarkup

variable {r r' : CacheRequest} {cache : TemplateCache} {a hit : CachedTemplate}

/-- What a cache is asked for: the template of a tree, which is known by its number, or of a source. -/
inductive CacheRequest where
  | tree (id : Nat) (node : TemplateNode) (options : CompileOptions)
  | source (text : String) (options : CompileOptions)

namespace CacheRequest

def origin : CacheRequest → Origin
  | .tree id _ _ => .tree id
  | .source text _ => .source text

def options : CacheRequest → CompileOptions
  | .tree _ _ options => options
  | .source _ options => options

def key (r : CacheRequest) : CacheKey :=
  ⟨r.origin, r.options.key⟩

/-- The outcome of compiling what is asked for, without a cache. -/
def compile (declared : Declarations) (maps : PropertyMaps) :
    CacheRequest → Except TemplateError Template × PropertyMaps
  | .tree _ node options =>
    let (result, maps) := compileWith declared maps options node
    (result.mapError .compile, maps)
  | .source text options => compileSource declared maps options text

/-- The outcome of asking a cache. -/
def ask (declared : Declarations) (maps : PropertyMaps) (cache : TemplateCache) :
    CacheRequest → Except TemplateError CachedTemplate × TemplateCache × PropertyMaps
  | .tree id node options =>
    let (result, cache, maps) := cache.getTree declared maps id node options
    (result.mapError .compile, cache, maps)
  | .source text options => cache.getSource declared maps text options

variable {declared : Declarations} {maps : PropertyMaps}

theorem ask_hit (h : cache.find? r.key = some hit) : r.ask declared maps cache = (.ok hit, cache, maps) := by
  cases r with
  | tree id node options =>
    simp only [ask, TemplateCache.getTree]
    rw [show cache.find? ⟨.tree id, options.key⟩ = some hit from h]
    rfl
  | source text options =>
    simp only [ask, TemplateCache.getSource]
    rw [show cache.find? ⟨.source text, options.key⟩ = some hit from h]

/-- Without an entry the outcome is that of compiling, and a success becomes an entry. -/
theorem ask_miss (h : cache.find? r.key = none) :
    r.ask declared maps cache =
      ((cache.add r.key (r.compile declared maps).1).1, (cache.add r.key (r.compile declared maps).1).2,
        (r.compile declared maps).2) := by
  cases r with
  | tree id node options =>
    simp only [ask, TemplateCache.getTree, compile]
    rw [show cache.find? ⟨.tree id, options.key⟩ = none from h]
    cases (compileWith declared maps options node).1 with
    | error e => rfl
    | ok t => rfl
  | source text options =>
    simp only [ask, TemplateCache.getSource, compile]
    rw [show cache.find? ⟨.source text, options.key⟩ = none from h]
    rfl

end CacheRequest

namespace TemplateCache

theorem findFrom_eq_some {key : CacheKey} {position : Nat} {entries : List (CacheKey × Template)}
    (h : findFrom key position entries = some hit) :
    ∃ i, hit.entry = position + i ∧ entries[i]? = some (key, hit.template) := by
  induction entries generalizing position with
  | nil => cases h
  | cons e rest ih =>
    obtain ⟨key', t⟩ := e
    unfold findFrom at h
    split at h
    next heq =>
      cases h
      exact ⟨0, rfl, by rw [heq]; rfl⟩
    next =>
      obtain ⟨i, hentry, hi⟩ := ih h
      exact ⟨i + 1, by omega, hi⟩

theorem findFrom_eq_none {key : CacheKey} {position : Nat} {entries : List (CacheKey × Template)}
    (h : findFrom key position entries = none) : key ∉ entries.map Prod.fst := by
  induction entries generalizing position with
  | nil => exact List.not_mem_nil
  | cons e rest ih =>
    obtain ⟨key', t⟩ := e
    unfold findFrom at h
    split at h
    next => cases h
    next hne =>
      rw [List.map_cons, List.mem_cons, not_or]
      exact ⟨hne, ih h⟩

theorem find?_eq_some {key : CacheKey} (h : cache.find? key = some hit) :
    cache.entries[hit.entry]? = some (key, hit.template) := by
  obtain ⟨i, hentry, hi⟩ := findFrom_eq_some h
  rwa [hentry, Nat.zero_add]

end TemplateCache

/-- A page with a cache beside it, and what the cache has answered so far. -/
structure CacheSession where
  page : Page
  cache : TemplateCache
  answered : List (CacheRequest × Except TemplateError CachedTemplate)

/-- What happens in a session: tags are defined and the cache is asked. -/
inductive CacheMove where
  | defineElement (tag : String) (d : Definition)
  | defineComponent (tag : String) (t : Template) (initial : Blueprint)
  | request (r : CacheRequest)

namespace CacheSession

def start (page : Page) : CacheSession :=
  ⟨page, .empty, []⟩

/-- What the cache answers to a request now. -/
def answer (s : CacheSession) (r : CacheRequest) : Except TemplateError CachedTemplate :=
  (r.ask s.page.registry.declared s.page.maps s.cache).1

/-- What compiling the same without the cache gives now. -/
def direct (s : CacheSession) (r : CacheRequest) : Except TemplateError Template :=
  (r.compile s.page.registry.declared s.page.maps).1

def request (s : CacheSession) (r : CacheRequest) : CacheSession where
  page := { s.page with maps := (r.ask s.page.registry.declared s.page.maps s.cache).2.2 }
  cache := (r.ask s.page.registry.declared s.page.maps s.cache).2.1
  answered := s.answered ++ [(r, s.answer r)]

def move (s : CacheSession) : CacheMove → CacheSession
  | .defineElement tag d => { s with page := (s.page.define tag d).2 }
  | .defineComponent tag t initial =>
    match s.page.defineWidget tag t initial with
    | .ok (_, page) => { s with page }
    | .error _ => s
  | .request r => s.request r

def run (s : CacheSession) (moves : List CacheMove) : CacheSession :=
  moves.foldl move s

variable {s : CacheSession}

/-- A definition changes the page only. -/
theorem move_cases (s : CacheSession) (m : CacheMove) :
    (∃ page, s.move m = { s with page := page }) ∨ ∃ r, m = .request r := by
  cases m with
  | defineElement tag d => exact Or.inl ⟨_, rfl⟩
  | defineComponent tag t initial =>
    left
    rw [move]
    cases s.page.defineWidget tag t initial with
    | error e => exact ⟨s.page, rfl⟩
    | ok defined => exact ⟨defined.2, rfl⟩
  | request r => exact Or.inr ⟨r, rfl⟩

/-- A request finds an entry, or its template cannot be compiled, or it makes a new entry at the end. -/
theorem request_cases (s : CacheSession) (r : CacheRequest) :
    (∃ hit, s.cache.find? r.key = some hit ∧ s.answer r = .ok hit ∧ (s.request r).cache = s.cache) ∨
    (s.cache.find? r.key = none ∧ ∃ e, s.direct r = .error e ∧ s.answer r = .error e ∧
      (s.request r).cache = s.cache) ∨
    (s.cache.find? r.key = none ∧ ∃ t, s.direct r = .ok t ∧ s.answer r = .ok ⟨s.cache.size, t⟩ ∧
      (s.request r).cache = ⟨s.cache.entries ++ [(r.key, t)]⟩) := by
  simp only [answer, request, direct]
  cases hfind : s.cache.find? r.key with
  | some hit =>
    rw [CacheRequest.ask_hit hfind]
    exact Or.inl ⟨hit, rfl, rfl, rfl⟩
  | none =>
    rw [CacheRequest.ask_miss hfind]
    right
    cases (r.compile s.page.registry.declared s.page.maps).1 with
    | error e => exact Or.inl ⟨rfl, e, rfl, rfl, rfl⟩
    | ok t => exact Or.inr ⟨rfl, t, rfl, rfl, rfl⟩

/-- Every template that was answered stands in the cache under the key of its request, and every entry was
an answer. -/
structure Recorded (s : CacheSession) : Prop where
  distinct : (s.cache.entries.map Prod.fst).Nodup
  held : ∀ {r a}, (r, .ok a) ∈ s.answered → s.cache.entries[a.entry]? = some (r.key, a.template)
  made : ∀ {e}, e ∈ s.cache.entries → ∃ r a, (r, .ok a) ∈ s.answered ∧ r.key = e.1

theorem mem_answered_request :
    (r', .ok a) ∈ (s.request r).answered ↔ (r', .ok a) ∈ s.answered ∨ r' = r ∧ s.answer r = .ok a := by
  simp only [request, List.mem_append, List.mem_singleton, Prod.mk.injEq]
  exact or_congr_right (and_congr_right fun _ => eq_comm)

/-- An answer that is an entry already is on record with the others. -/
theorem Recorded.kept (h : s.Recorded) (hcache : (s.request r).cache = s.cache)
    (hheld : ∀ a, s.answer r = .ok a → s.cache.entries[a.entry]? = some (r.key, a.template)) :
    (s.request r).Recorded := by
  refine ⟨hcache ▸ h.distinct, ?_, ?_⟩
  · intro r' a ha
    rw [hcache]
    rcases mem_answered_request.mp ha with hold | ⟨rfl, hnew⟩
    · exact h.held hold
    · exact hheld a hnew
  · intro e he
    rw [hcache] at he
    obtain ⟨r', a, ha, hkey⟩ := h.made he
    exact ⟨r', a, mem_answered_request.mpr (Or.inl ha), hkey⟩

theorem Recorded.request (h : s.Recorded) (r : CacheRequest) : (s.request r).Recorded := by
  rcases s.request_cases r with ⟨hit, hfind, hanswer, hcache⟩ | ⟨-, e, -, hanswer, hcache⟩ |
    ⟨hfind, t, -, hanswer, hcache⟩
  · apply h.kept hcache
    intro a ha
    rw [hanswer] at ha
    cases ha
    exact TemplateCache.find?_eq_some hfind
  · apply h.kept hcache
    intro a ha
    rw [hanswer] at ha
    cases ha
  · refine ⟨?_, ?_, ?_⟩
    · rw [hcache, List.map_append, List.nodup_append]
      refine ⟨h.distinct, List.nodup_singleton _, ?_⟩
      intro key hkey new hnew heq
      have hfresh := TemplateCache.findFrom_eq_none hfind
      have hnew' : new = r.key := List.mem_singleton.mp hnew
      rw [heq, hnew'] at hkey
      exact hfresh hkey
    · intro r' a ha
      rw [hcache]
      rcases mem_answered_request.mp ha with hold | ⟨rfl, hnew⟩
      · have hat := h.held hold
        have hlt : a.entry < s.cache.entries.length := (List.getElem?_eq_some_iff.mp hat).1
        rw [List.getElem?_append_left hlt]
        exact hat
      · rw [hanswer] at hnew
        cases hnew
        exact List.getElem?_concat_length
    · intro e he
      rw [hcache, List.mem_append] at he
      rcases he with hold | hnew
      · obtain ⟨r', a, ha, hkey⟩ := h.made hold
        exact ⟨r', a, mem_answered_request.mpr (Or.inl ha), hkey⟩
      · rw [List.mem_singleton.mp hnew]
        exact ⟨r, _, mem_answered_request.mpr (Or.inr ⟨rfl, hanswer⟩), rfl⟩

theorem Recorded.move (h : s.Recorded) (m : CacheMove) : (s.move m).Recorded := by
  rcases s.move_cases m with ⟨page, hmove⟩ | ⟨r, rfl⟩
  · rw [hmove]
    exact ⟨h.distinct, h.held, h.made⟩
  · exact h.request r

theorem Recorded.run (h : s.Recorded) (moves : List CacheMove) : (s.run moves).Recorded := by
  induction moves generalizing s with
  | nil => exact h
  | cons m moves ih => exact ih (h.move m)

theorem recorded_start (page : Page) : (start page).Recorded :=
  ⟨List.nodup_nil, fun h => absurd h List.not_mem_nil, fun h => absurd h List.not_mem_nil⟩

/-- Entries of different keys are different. -/
theorem Recorded.entry_eq_iff (h : s.Recorded) {a' : CachedTemplate} (ha : (r, .ok a) ∈ s.answered)
    (ha' : (r', .ok a') ∈ s.answered) : a.entry = a'.entry ↔ r.key = r'.key := by
  have hat := h.held ha
  have hat' := h.held ha'
  constructor
  · intro heq
    rw [heq, hat'] at hat
    exact (Prod.mk.inj (Option.some.inj hat)).1.symm
  · intro heq
    have hlt : a.entry < (s.cache.entries.map Prod.fst).length := by
      rw [List.length_map]
      exact (List.getElem?_eq_some_iff.mp hat).1
    apply (List.getElem?_inj hlt h.distinct).mp
    rw [List.getElem?_map, List.getElem?_map, hat, hat']
    exact congrArg some heq

theorem Recorded.eq_of_entry_eq (h : s.Recorded) {a' : CachedTemplate} (ha : (r, .ok a) ∈ s.answered)
    (ha' : (r', .ok a') ∈ s.answered) (heq : a.entry = a'.entry) : a = a' := by
  have hat := h.held ha
  rw [heq, h.held ha'] at hat
  have htemplate : a'.template = a.template := (Prod.mk.inj (Option.some.inj hat)).2
  obtain ⟨entry, template⟩ := a
  obtain ⟨entry', template'⟩ := a'
  rw [show entry = entry' from heq, show template' = template from htemplate]

/-- The keys of the requests that were answered with a template. -/
def served (s : CacheSession) : List CacheKey :=
  s.answered.filterMap fun p => p.2.toOption.map fun _ => p.1.key

theorem mem_served {key : CacheKey} : key ∈ s.served ↔ ∃ r a, (r, .ok a) ∈ s.answered ∧ r.key = key := by
  unfold served
  rw [List.mem_filterMap]
  constructor
  · rintro ⟨⟨r, result⟩, hmem, hkey⟩
    cases result with
    | error e => cases hkey
    | ok a => exact ⟨r, a, hmem, Option.some.inj hkey⟩
  · rintro ⟨r, a, hmem, rfl⟩
    exact ⟨(r, .ok a), hmem, rfl⟩

theorem Recorded.size_eq (h : s.Recorded) : s.cache.size = s.served.dedup.length := by
  have hperm : (s.cache.entries.map Prod.fst).Perm s.served.dedup := by
    apply (List.perm_ext_iff_of_nodup h.distinct (List.nodup_dedup _)).mpr
    intro key
    rw [List.mem_dedup, mem_served, List.mem_map]
    constructor
    · rintro ⟨e, he, rfl⟩
      exact h.made he
    · rintro ⟨r, a, ha, rfl⟩
      exact ⟨_, List.mem_of_getElem? (h.held ha), rfl⟩
  rw [← hperm.length_eq, List.length_map]
  rfl

end CacheSession

theorem CacheRequest.key_eq_iff :
    r.key = r'.key ↔ r.origin = r'.origin ∧ r.options.name = r'.options.name ∧
      r.options.rootName = r'.options.rootName ∧ r.options.createRoot = r'.options.createRoot ∧
      r.options.nested.address = r'.options.nested.address ∧ r.options.methods = r'.options.methods := by
  simp only [CacheRequest.key, CacheKey.mk.injEq, CompileOptions.key, OptionsKey.mk.injEq]

open CacheSession in
/-- Whatever happens in a session, two answers are the same template exactly when the requests have the same
origin and the same options, a refused request leaves the cache as it was, and the cache holds as many
templates as different requests were answered with one. -/
theorem cache_shares_by_key (page : Page) (moves : List CacheMove) :
    (∀ r a r' a', (r, .ok a) ∈ ((start page).run moves).answered →
      (r', .ok a') ∈ ((start page).run moves).answered →
      (a.entry = a'.entry ↔ r.origin = r'.origin ∧ r.options.name = r'.options.name ∧
        r.options.rootName = r'.options.rootName ∧ r.options.createRoot = r'.options.createRoot ∧
        r.options.nested.address = r'.options.nested.address ∧ r.options.methods = r'.options.methods) ∧
      (a.entry = a'.entry → a = a')) ∧
    (∀ r e, ((start page).run moves).answer r = .error e →
      (((start page).run moves).request r).cache = ((start page).run moves).cache) ∧
    ((start page).run moves).cache.size = ((start page).run moves).served.dedup.length := by
  have hrecorded := (recorded_start page).run moves
  refine ⟨?_, ?_, hrecorded.size_eq⟩
  · intro r a r' a' ha ha'
    refine ⟨?_, ?_⟩
    · rw [hrecorded.entry_eq_iff ha ha', CacheRequest.key_eq_iff]
    · exact hrecorded.eq_of_entry_eq ha ha'
  · intro r e he
    rcases CacheSession.request_cases _ r with ⟨hit, -, hanswer, hcache⟩ | ⟨-, e', -, -, hcache⟩ |
      ⟨-, t, -, hanswer, -⟩
    · exact hcache
    · exact hcache
    · rw [he] at hanswer
      cases hanswer

def sampleShared : CacheRequest :=
  .tree 0 (.node (.ofTag "p") []) {}

def sampleAdopted : CacheRequest :=
  .tree 0 (.node (.ofTag "p") []) { createRoot := false }

def sampleUntagged : CacheRequest :=
  .tree 1 (.node (.ofTag "") []) {}

/-- Two requests for one tree under different options, a refused one, and the first one again. -/
def sampleRequests : List CacheMove :=
  [.request sampleShared, .request sampleAdopted, .request sampleUntagged, .request sampleShared]

theorem sampleRequests_answered : ∃ t t', ((CacheSession.start .empty).run sampleRequests).answered =
    [(sampleShared, .ok ⟨0, t⟩), (sampleAdopted, .ok ⟨1, t'⟩),
      (sampleUntagged, .error (.compile (.missingTagOrExpression "root"))), (sampleShared, .ok ⟨0, t⟩)] :=
  ⟨_, _, rfl⟩

theorem cache_shares_by_key_sampleRequests :
    ∃ a a', (sampleShared, .ok a) ∈ ((CacheSession.start .empty).run sampleRequests).answered ∧
      (sampleAdopted, .ok a') ∈ ((CacheSession.start .empty).run sampleRequests).answered ∧
      a.entry ≠ a'.entry ∧
      (((CacheSession.start .empty).run sampleRequests).request sampleUntagged).cache =
        ((CacheSession.start .empty).run sampleRequests).cache ∧
      ((CacheSession.start .empty).run sampleRequests).cache.size = 2 := by
  obtain ⟨t, t', hanswered⟩ := sampleRequests_answered
  obtain ⟨hshared, hrefused, hsize⟩ := cache_shares_by_key .empty sampleRequests
  have ha : (sampleShared, .ok ⟨0, t⟩) ∈ ((CacheSession.start .empty).run sampleRequests).answered := by
    simp [hanswered]
  have ha' : (sampleAdopted, .ok ⟨1, t'⟩) ∈ ((CacheSession.start .empty).run sampleRequests).answered := by
    simp [hanswered]
  refine ⟨_, _, ha, ha', ?_, hrefused sampleUntagged (.compile (.missingTagOrExpression "root")) rfl, ?_⟩
  · intro heq
    have hsame := ((hshared _ _ _ _ ha ha').1.mp heq).2.2.2.1
    cases hsame
  · rw [hsize]
    decide +kernel

end LiveMarkup
