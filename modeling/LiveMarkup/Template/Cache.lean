import LiveMarkup.Template.Compile

namespace LiveMarkup

/-- What a cached template was compiled from: a tree, known by its number, or a source text. -/
inductive Origin where
  | tree (id : Nat)
  | source (text : String)
deriving DecidableEq, Repr

/-- The options of a request as far as they can be compared. The test for nested tags counts by its
address. -/
structure OptionsKey where
  name : String
  rootName : String
  createRoot : Bool
  nested : Nat
  methods : Option Names
deriving DecidableEq

def CompileOptions.key (options : CompileOptions) : OptionsKey :=
  ⟨options.name, options.rootName, options.createRoot, options.nested.address, options.methods⟩

/-- Templates are shared between requests of the same origin under the same options. -/
structure CacheKey where
  origin : Origin
  options : OptionsKey
deriving DecidableEq

/-- Compiled templates in the order they were first compiled. The position of an entry identifies it. -/
structure TemplateCache where
  entries : List (CacheKey × Template)

instance : Inhabited TemplateCache := ⟨⟨[]⟩⟩

/-- A template from the cache and its position there. -/
structure CachedTemplate where
  entry : Nat
  template : Template

namespace TemplateCache

def empty : TemplateCache :=
  ⟨[]⟩

def size (cache : TemplateCache) : Nat :=
  cache.entries.length

def findFrom (key : CacheKey) (position : Nat) : List (CacheKey × Template) → Option CachedTemplate
  | [] => none
  | (key', t) :: rest => if key = key' then some ⟨position, t⟩ else findFrom key (position + 1) rest

def find? (cache : TemplateCache) (key : CacheKey) : Option CachedTemplate :=
  findFrom key 0 cache.entries

/-- Adds the template of a new key. A failure adds nothing. -/
def add (cache : TemplateCache) (key : CacheKey) :
    Except ε Template → Except ε CachedTemplate × TemplateCache
  | .error e => (.error e, cache)
  | .ok t => (.ok ⟨cache.size, t⟩, ⟨cache.entries ++ [(key, t)]⟩)

/-- The template of a tree, compiled when the cache has none. -/
def getTree (declared : Declarations) (maps : PropertyMaps) (cache : TemplateCache) (id : Nat)
    (node : TemplateNode) (options : CompileOptions) :
    Except CompileError CachedTemplate × TemplateCache × PropertyMaps :=
  let key := ⟨.tree id, options.key⟩
  match cache.find? key with
  | some hit => (.ok hit, cache, maps)
  | none =>
    let (compiled, maps) := compileWith declared maps options node
    let (result, cache) := cache.add key compiled
    (result, cache, maps)

/-- The template of a source, read and compiled when the cache has none. -/
def getSource (declared : Declarations) (maps : PropertyMaps) (cache : TemplateCache) (source : String)
    (options : CompileOptions) : Except TemplateError CachedTemplate × TemplateCache × PropertyMaps :=
  let key := ⟨.source source, options.key⟩
  match cache.find? key with
  | some hit => (.ok hit, cache, maps)
  | none =>
    let (compiled, maps) := compileSource declared maps options source
    let (result, cache) := cache.add key compiled
    (result, cache, maps)

end TemplateCache

end LiveMarkup
