import TagRules.Activity
import TagRules.Explanation
import TagRules.Json.Decode
import TagRules.Json.Printer
import TagRules.Selection

/-!
The data of the library as JSON. Each type has an encoder and a decoder; a decoder
accepts more than its encoder writes, such as records without the fields that have a
default. For a record, `members` is what is written and `fields` what is looked for.
-/

namespace TagRules

open Json

/-- The names of the given values, each with its value. -/
def namedBy {α : Type} (name : α → String) (values : List α) : List (String × α) :=
  values.map (fun value => (name value, value))

def SelectionMode.encode (mode : SelectionMode) : Value :=
  .string mode.name

def SelectionMode.decoder : Decoder SelectionMode :=
  .variant (namedBy name all)

def TagKind.encode (kind : TagKind) : Value :=
  .string kind.name

def TagKind.decoder : Decoder TagKind :=
  .variant (namedBy name all)

def TagStatus.name : TagStatus → String
  | .active => "active"
  | .deprecated => "deprecated"

def TagStatus.encode (status : TagStatus) : Value :=
  .string status.name

def TagStatus.decoder : Decoder TagStatus :=
  .variant (namedBy name [.active, .deprecated])

def Operator.encode (op : Operator) : Value :=
  .string op.symbol

def Operator.decoder : Decoder Operator :=
  .variant (namedBy symbol [.and, .or])

/-- The member of a field that is left out where it has no value. -/
def Json.Value.optional (name : String) : Option Value → List (String × Value)
  | some value => [(name, value)]
  | none => []

namespace Selection

def members (selection : Selection) : List (String × Value) :=
  [("key", .string selection.key), ("mode", selection.mode.encode)]

def encode (selection : Selection) : Value :=
  .record selection.members

def fields : List Field :=
  [.required "key" Decoder.text, .required "mode" SelectionMode.decoder]

def decoder : Decoder Selection := fun value => do
  let values ← Fields.ofValue "TagSelection" fields value
  return ⟨← Fields.get values "key" .text, ← Fields.get values "mode" SelectionMode.decoder⟩

end Selection

namespace Activity

def members (activity : Activity) : List (String × Value) :=
  [("title", .string activity.title), ("description", .string activity.description),
    ("tagKeys", .list .string activity.tagKeys)]

def encode (activity : Activity) : Value :=
  .record activity.members

def fields : List Field :=
  [.required "title" Decoder.text, .defaulted "description" Decoder.text,
    .defaulted "tagKeys" (Decoder.list .text)]

def decoder : Decoder Activity := fun value => do
  let values ← Fields.ofValue "Activity" fields value
  return ⟨← Fields.get values "title" .text, ← Fields.getD values "description" .text "",
    ← Fields.getD values "tagKeys" (.list .text) []⟩

end Activity

namespace CatalogEntry

def members (entry : CatalogEntry) : List (String × Value) :=
  [("key", .string entry.key), ("label", .string entry.label),
      ("kind", entry.kind.encode), ("description", .string entry.description)] ++
    Value.optional "parent" (entry.parent.map .string) ++
    [("status", entry.status.encode)] ++
    Value.optional "supersededBy" (entry.supersededBy.map .string)

def encode (entry : CatalogEntry) : Value :=
  .record entry.members

def fields : List Field :=
  [.required "key" Decoder.text, .required "label" Decoder.text,
    .required "kind" TagKind.decoder, .defaulted "description" Decoder.text,
    .defaulted "parent" (Decoder.option .text), .defaulted "status" TagStatus.decoder,
    .defaulted "supersededBy" (Decoder.option .text)]

def decoder : Decoder CatalogEntry := fun value => do
  let values ← Fields.ofValue "CatalogEntry" fields value
  return ⟨← Fields.get values "key" .text, ← Fields.get values "label" .text,
    ← Fields.get values "kind" TagKind.decoder, ← Fields.getD values "description" .text "",
    ← Fields.getD values "parent" (.option .text) none,
    ← Fields.getD values "status" TagStatus.decoder .active,
    ← Fields.getD values "supersededBy" (.option .text) none⟩

end CatalogEntry

namespace Catalog

def encode (catalog : Catalog) : Value :=
  .list CatalogEntry.encode catalog.entries

/-- A catalog is written as the list of its entries. -/
def decoder : Decoder Catalog := fun value => do
  match ofList (← Decoder.list CatalogEntry.decoder value) with
  | .ok catalog => return catalog
  | .error error => throw (.mismatch (.invalid error.message))

end Catalog

namespace Clause

def members (clause : Clause) : List (String × Value) :=
  [("source", .string clause.source), ("matches", .bool clause.holds),
      ("matchedTags", .list .string clause.matched),
      ("missingTags", .list .string clause.missing)] ++
    Value.optional "joiner" (clause.joiner.map Operator.encode)

def encode (clause : Clause) : Value :=
  .record clause.members

def fields : List Field :=
  [.required "source" Decoder.text, .required "matches" Decoder.bool,
    .required "matchedTags" (Decoder.list .text), .required "missingTags" (Decoder.list .text),
    .defaulted "joiner" (Decoder.option Operator.decoder)]

def decoder : Decoder Clause := fun value => do
  let values ← Fields.ofValue "ClauseDetail" fields value
  return ⟨← Fields.get values "source" .text, ← Fields.get values "matches" .bool,
    ← Fields.get values "matchedTags" (.list .text),
    ← Fields.get values "missingTags" (.list .text),
    ← Fields.getD values "joiner" (.option Operator.decoder) none⟩

end Clause

namespace Explanation

def members (explanation : Explanation) : List (String × Value) :=
  [("matches", .bool explanation.holds), ("clauses", .list Clause.encode explanation.clauses)]

def encode (explanation : Explanation) : Value :=
  .record explanation.members

def fields : List Field :=
  [.required "matches" Decoder.bool, .required "clauses" (Decoder.list Clause.decoder)]

def decoder : Decoder Explanation := fun value => do
  let values ← Fields.ofValue "Explanation" fields value
  return ⟨← Fields.get values "matches" .bool, ← Fields.get values "clauses" (.list Clause.decoder)⟩

end Explanation

end TagRules
