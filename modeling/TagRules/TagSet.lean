/-!
The tags that a rule is asked about. Only membership matters: neither the order
nor the number of times a key was given can change an answer.
-/

namespace TagRules

structure TagSet where
  keys : List String
  nodup : keys.Nodup

namespace TagSet

def empty : TagSet :=
  ⟨[], List.nodup_nil⟩

def contains (tags : TagSet) (key : String) : Bool :=
  decide (key ∈ tags.keys)

instance : Membership String TagSet where
  mem tags key := key ∈ tags.keys

theorem mem_def {tags : TagSet} {key : String} : key ∈ tags ↔ key ∈ tags.keys :=
  Iff.rfl

@[simp] theorem contains_iff {tags : TagSet} {key : String} :
    tags.contains key = true ↔ key ∈ tags := by
  simp [contains, mem_def]

def insert (tags : TagSet) (key : String) : TagSet :=
  if h : key ∈ tags.keys then tags else ⟨key :: tags.keys, List.nodup_cons.2 ⟨h, tags.nodup⟩⟩

@[simp] theorem mem_insert {tags : TagSet} {key k : String} :
    k ∈ tags.insert key ↔ k = key ∨ k ∈ tags := by
  unfold insert
  split <;> simp_all [mem_def]

def insertMany (tags : TagSet) (keys : List String) : TagSet :=
  keys.foldl insert tags

@[simp] theorem mem_insertMany {tags : TagSet} {keys : List String} {k : String} :
    k ∈ tags.insertMany keys ↔ k ∈ keys ∨ k ∈ tags := by
  induction keys generalizing tags with
  | nil => simp [insertMany]
  | cons key rest ih =>
    have step : tags.insertMany (key :: rest) = (tags.insert key).insertMany rest := rfl
    rw [step, ih, mem_insert, List.mem_cons, ← or_assoc, @or_comm (k ∈ rest)]

def ofList (keys : List String) : TagSet :=
  empty.insertMany keys

@[simp] theorem mem_ofList {keys : List String} {k : String} : k ∈ ofList keys ↔ k ∈ keys := by
  rw [ofList, mem_insertMany]
  exact or_iff_left List.not_mem_nil

def size (tags : TagSet) : Nat :=
  tags.keys.length

def isEmpty (tags : TagSet) : Bool :=
  tags.keys.isEmpty

def sameKeys (tags others : TagSet) : Bool :=
  tags.keys.all others.contains && others.keys.all tags.contains

theorem sameKeys_iff {tags others : TagSet} :
    tags.sameKeys others = true ↔ ∀ key : String, key ∈ tags ↔ key ∈ others := by
  simp only [sameKeys, Bool.and_eq_true, List.all_eq_true, contains_iff]
  exact ⟨fun h key => ⟨h.1 key, h.2 key⟩, fun h => ⟨fun key => (h key).1, fun key => (h key).2⟩⟩

/-- The keys in the order of their code points, which is also the order of their
UTF-8 bytes. -/
def sorted (tags : TagSet) : List String :=
  tags.keys.mergeSort (fun a b => !decide (b < a))

end TagSet

end TagRules
