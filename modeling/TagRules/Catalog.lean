import TagRules.Catalog.Kind

/-!
The catalog of known tags: what each key stands for. No key has two entries, so an
entry is found by its key without ambiguity.
-/

namespace TagRules

inductive TagStatus where
  | active
  | deprecated
  deriving DecidableEq, Repr

structure CatalogEntry where
  key : String
  /-- How the tag is shown to people. -/
  label : String
  kind : TagKind
  description : String
  /-- The key of the wider tag that this one belongs to. -/
  parent : Option String
  status : TagStatus
  /-- The key to use in place of a deprecated one. -/
  supersededBy : Option String
  deriving DecidableEq, Repr

/-- An active tag of which no more than its label and kind is known. -/
def CatalogEntry.plain (key label : String) (kind : TagKind) : CatalogEntry :=
  ⟨key, label, kind, "", none, .active, none⟩

/-- Entries of pairwise distinct keys. -/
structure Catalog where
  entries : List CatalogEntry
  nodup : (entries.map CatalogEntry.key).Nodup

structure DuplicateKey where
  key : String
  deriving DecidableEq, Repr

def DuplicateKey.message (error : DuplicateKey) : String :=
  s!"duplicate catalog key '{error.key}'"

namespace Catalog

/-- The first key of a list that is among those before it, or among `seen`. -/
def firstRepeat? (seen : List String) : List String → Option String
  | [] => none
  | key :: rest => if key ∈ seen then some key else firstRepeat? (key :: seen) rest

theorem nodup_of_firstRepeat?_eq_none {seen keys : List String}
    (h : firstRepeat? seen keys = none) : keys.Nodup ∧ ∀ key ∈ keys, key ∉ seen := by
  induction keys generalizing seen with
  | nil => simp
  | cons key rest ih =>
    rw [firstRepeat?] at h
    split at h
    · cases h
    · next hnew =>
      obtain ⟨hrest, hseen⟩ := ih h
      refine ⟨List.nodup_cons.2 ⟨fun hin => hseen key hin List.mem_cons_self, hrest⟩, ?_⟩
      intro other hother
      rcases List.mem_cons.1 hother with rfl | hin
      · exact hnew
      · exact fun hmem => hseen other hin (List.mem_cons_of_mem _ hmem)

/-- The catalog of a list of entries, unless a key comes twice. -/
def ofList (entries : List CatalogEntry) : Except DuplicateKey Catalog :=
  match h : firstRepeat? [] (entries.map CatalogEntry.key) with
  | some key => .error ⟨key⟩
  | none => .ok ⟨entries, (nodup_of_firstRepeat?_eq_none h).1⟩

def get? (catalog : Catalog) (key : String) : Option CatalogEntry :=
  catalog.entries.find? (·.key = key)

/-- How a key is shown: by the label of its entry, or as it is if it has none. -/
def labelOf (catalog : Catalog) (key : String) : String :=
  match catalog.get? key with
  | some entry => entry.label
  | none => key

def ofKind (catalog : Catalog) (kind : TagKind) : List CatalogEntry :=
  catalog.entries.filter (·.kind = kind)

def size (catalog : Catalog) : Nat :=
  catalog.entries.length

def isEmpty (catalog : Catalog) : Bool :=
  catalog.entries.isEmpty

end Catalog

end TagRules
