import TagRules.Selection

/-!
Selections under construction: a map from keys to modes that remembers the order in
which keys were first selected. Changing the mode of a key leaves it in its place.
-/

namespace TagRules

/-- Selections of pairwise distinct keys. -/
structure SelectionSet where
  entries : List Selection
  nodup : (entries.map Selection.key).Nodup

namespace SelectionSet

def empty : SelectionSet :=
  ⟨[], List.nodup_nil⟩

def modeOf? (set : SelectionSet) (key : String) : Option SelectionMode :=
  (set.entries.find? (·.key = key)).map Selection.mode

def erase (set : SelectionSet) (key : String) : SelectionSet :=
  ⟨set.entries.filter (·.key ≠ key), set.nodup.sublist (List.filter_sublist.map _)⟩

/-- Gives the mode to the entry of the key and leaves the others alone. -/
def assign (key : String) (mode : SelectionMode) (entry : Selection) : Selection :=
  if entry.key = key then ⟨key, mode⟩ else entry

theorem key_assign (key : String) (mode : SelectionMode) (entry : Selection) :
    (assign key mode entry).key = entry.key := by
  unfold assign
  split <;> simp_all

theorem keys_assign (key : String) (mode : SelectionMode) (entries : List Selection) :
    (entries.map (assign key mode)).map Selection.key = entries.map Selection.key := by
  simp [Function.comp_def, key_assign]

/-- The set in which a key has the mode. A new key goes to the end. -/
def insert (set : SelectionSet) (key : String) (mode : SelectionMode) : SelectionSet :=
  if h : key ∈ set.entries.map Selection.key then
    ⟨set.entries.map (assign key mode), by rw [keys_assign]; exact set.nodup⟩
  else
    ⟨set.entries ++ [⟨key, mode⟩], by
      rw [List.map_append, List.map_singleton, List.nodup_append]
      refine ⟨set.nodup, by simp, ?_⟩
      intro other hother added hadded heq
      obtain rfl := List.mem_singleton.1 hadded
      exact h (heq ▸ hother)⟩

/-- Selects a key in a mode. The answer is the mode that is replaced. -/
def select (set : SelectionSet) (key : String) (mode : SelectionMode) :
    Option SelectionMode × SelectionSet :=
  (set.modeOf? key, set.insert key mode)

def remove (set : SelectionSet) (key : String) : Option SelectionMode × SelectionSet :=
  (set.modeOf? key, set.erase key)

/-- The mode a key has after one more step of the cycle. A key that is not selected
enters it at its first mode. -/
def nextMode? : Option SelectionMode → Option SelectionMode
  | none => some .mustHaveAll
  | some mode => mode.next?

/-- Steps a key along the cycle. The answer is the mode it has afterwards. -/
def toggle (set : SelectionSet) (key : String) : Option SelectionMode × SelectionSet :=
  match nextMode? (set.modeOf? key) with
  | some mode => (some mode, set.insert key mode)
  | none => (none, set.erase key)

def clear (_set : SelectionSet) : SelectionSet :=
  empty

/-- The set that selecting each of a list in turn leads to. -/
def ofList (selections : List Selection) : SelectionSet :=
  selections.foldl (fun set selection => set.insert selection.key selection.mode) empty

def size (set : SelectionSet) : Nat :=
  set.entries.length

def isEmpty (set : SelectionSet) : Bool :=
  set.entries.isEmpty

def expression (set : SelectionSet) : String :=
  Selection.expression set.entries

end SelectionSet

end TagRules
