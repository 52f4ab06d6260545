import Mathlib.Data.List.Sublists
import TagRules.Proofs.DistinctKeys
import TagRules.Proofs.JsonText
import TagRules.Record

/-!
The data of the library survive being written as JSON and read again. A decoder that undoes an
encoder is put together as the encoder is, from the parts of a record to the record; a record
is read back because each of its members goes to the field of its name, and no field is seen
twice.
-/

namespace TagRules.Json

/-- The encoder makes plain values only, and the decoder finds in each what it was made from. -/
structure Decoder.Undoes {α : Type} (decoder : Decoder α) (encode : α → Value) : Prop where
  plain : ∀ item, (encode item).Plain
  decodes : ∀ item, decoder (encode item) = .ok item

theorem Decoder.Undoes.decode_toCompact {α : Type} {decoder : Decoder α} {encode : α → Value}
    (h : decoder.Undoes encode) (item : α) :
    decode decoder (encode item).toCompact = .ok item := by
  rw [Json.decode_toCompact decoder (h.plain item), h.decodes]

section Parts

variable {α : Type} {decoder : Decoder α} {encode : α → Value}

theorem Decoder.text_undoes : text.Undoes .string where
  plain := .string
  decodes _ := rfl

theorem Decoder.bool_undoes : bool.Undoes .bool where
  plain := .bool
  decodes _ := rfl

theorem Decoder.Undoes.mapM_map (h : decoder.Undoes encode) (items : List α) :
    (items.map encode).mapM decoder = .ok items := by
  induction items with
  | nil => rfl
  | cons item items ih => rw [List.map_cons, List.mapM_cons, h.decodes, ih]; rfl

theorem Decoder.Undoes.list (h : decoder.Undoes encode) :
    (Decoder.list decoder).Undoes (Value.list encode) where
  plain items := by
    refine .array fun value hvalue => ?_
    obtain ⟨item, -, rfl⟩ := List.mem_map.1 hvalue
    exact h.plain item
  decodes := h.mapM_map

/-- A value that is there is no null. -/
theorem Decoder.Undoes.option (h : decoder.Undoes encode) (item : α) :
    Decoder.option decoder (encode item) = .ok (some item) := by
  rw [Decoder.option]
  · rw [h.decodes]; rfl
  · intro hnull
    have hplain := h.plain item
    rw [hnull] at hplain
    cases hplain

theorem lookup_namedBy {name : α → String} {values : List α} (hnodup : (values.map name).Nodup)
    {value : α} (hmem : value ∈ values) :
    (namedBy name values).lookup (name value) = some value := by
  have hnames : ((namedBy name values).map Prod.fst).Nodup := by
    rw [namedBy, List.map_map]
    exact hnodup
  rw [lookup_eq_some_iff hnames]
  exact List.mem_map_of_mem hmem

theorem Decoder.variant_undoes {name : α → String} {values : List α}
    (hnodup : (values.map name).Nodup) (hall : ∀ value, value ∈ values) :
    (variant (namedBy name values)).Undoes (fun value => .string (name value)) where
  plain value := .string (name value)
  decodes value := by
    rw [variant, named, lookup_namedBy hnodup (hall value)]

end Parts

/-- The value is plain and passes the check of the field. -/
def Field.Takes (field : Field) (value : Value) : Prop :=
  value.Plain ∧ field.check value = .ok ()

/-- The members are values of some of the fields, in the order of the fields. -/
inductive Fields.Filled : List Field → List (String × Value) → Prop
  | nil : Filled [] []
  | written {field : Field} {value : Value} {fields : List Field} {members : List (String × Value)}
      (htakes : field.Takes value) (hrest : Filled fields members) :
      Filled (field :: fields) ((field.name, value) :: members)
  | omitted {field : Field} {fields : List Field} {members : List (String × Value)}
      (hrest : Filled fields members) : Filled (field :: fields) members

namespace Fields

section Writing

variable {α : Type} {decoder : Decoder α} {encode : α → Value} {fields : List Field}
  {members : List (String × Value)}

theorem Filled.required (name : String) (h : decoder.Undoes encode) (item : α)
    (hrest : Filled fields members) :
    Filled (.required name decoder :: fields) ((name, encode item) :: members) :=
  .written ⟨h.plain item, by simp only [Field.required, h.decodes]; rfl⟩ hrest

theorem Filled.defaulted (name : String) (h : decoder.Undoes encode) (item : α)
    (hrest : Filled fields members) :
    Filled (.defaulted name decoder :: fields) ((name, encode item) :: members) :=
  .written ⟨h.plain item, by simp only [Field.defaulted, h.decodes]; rfl⟩ hrest

theorem Filled.optional (name : String) (h : decoder.Undoes encode) (item? : Option α)
    (hrest : Filled fields members) :
    Filled (.defaulted name (.option decoder) :: fields)
      (Value.optional name (item?.map encode) ++ members) := by
  cases item? with
  | none => exact .omitted hrest
  | some item =>
    exact .written ⟨h.plain item, by simp only [Field.defaulted, h.option]; rfl⟩ hrest

theorem get_eq {values : List (String × Value)} {name : String} {item : α}
    (h : decoder.Undoes encode) (hlookup : values.lookup name = some (encode item)) :
    get values name decoder = .ok item := by
  rw [get, hlookup]
  exact h.decodes item

theorem getD_eq {values : List (String × Value)} {name : String} {item default : α}
    (h : decoder.Undoes encode) (hlookup : values.lookup name = some (encode item)) :
    getD values name decoder default = .ok item := by
  rw [getD, hlookup]
  exact h.decodes item

theorem getD_optional {values : List (String × Value)} {name : String} {item? : Option α}
    (h : decoder.Undoes encode) (hlookup : values.lookup name = item?.map encode) :
    getD values name (.option decoder) none = .ok item? := by
  rw [getD, hlookup]
  cases item? with
  | none => rfl
  | some item => exact h.option item

end Writing

section Reading

variable {fields : List Field} {members : List (String × Value)}

theorem Filled.plain (h : Filled fields members) : (Value.record members).Plain := by
  refine .record ?_
  induction h with
  | nil => simp
  | written htakes _ ih => exact List.forall_mem_cons.2 ⟨htakes.1, ih⟩
  | omitted _ ih => exact ih

theorem Filled.names_sublist (h : Filled fields members) :
    (members.map Prod.fst).Sublist (fields.map Field.name) := by
  induction h with
  | nil => exact .slnil
  | written _ _ ih => exact ih.cons_cons _
  | omitted _ ih => exact ih.cons _

/-- The members that are left are of fields not seen so far, each the only one of its name. -/
theorem Filled.ofMembers_eq {known : List Field} {seen : List (String × Value)}
    (h : Filled fields members) (hnodup : (fields.map Field.name).Nodup)
    (hknown : ∀ field ∈ fields, known.find? (·.name = field.name) = some field)
    (hseen : ∀ field ∈ fields, seen.lookup field.name = none) :
    ofMembers known seen (members.map fun (name, value) => (.string name, value)) =
      .ok (members.reverse ++ seen) := by
  induction h generalizing seen with
  | nil => rfl
  | @written field value fields members htakes _ ih =>
    rw [List.map_cons, List.nodup_cons] at hnodup
    -- The member that has been seen is not in the way of the fields that are left.
    have hrest : ∀ other ∈ fields, ((field.name, value) :: seen).lookup other.name = none := by
      intro other hother
      have hne : other.name ≠ field.name := fun heq => hnodup.1 (heq ▸ List.mem_map_of_mem hother)
      rw [List.lookup_cons, beq_false_of_ne hne]
      exact hseen other (List.mem_cons_of_mem _ hother)
    rw [List.map_cons, ofMembers, hknown field List.mem_cons_self]
    simp only [hseen field List.mem_cons_self, htakes.2]
    rw [List.reverse_cons, List.append_assoc, List.singleton_append,
      ← ih hnodup.2 (fun other hother => hknown other (List.mem_cons_of_mem _ hother)) hrest]
    rfl
  | omitted _ ih =>
    rw [List.map_cons, List.nodup_cons] at hnodup
    exact ih hnodup.2 (fun other hother => hknown other (List.mem_cons_of_mem _ hother))
      (fun other hother => hseen other (List.mem_cons_of_mem _ hother))

theorem lookup_reverse {pairs : List (String × Value)} (hnodup : (pairs.map Prod.fst).Nodup)
    (name : String) : pairs.reverse.lookup name = pairs.lookup name := by
  have hreverse : (pairs.reverse.map Prod.fst).Nodup := by
    rw [List.map_reverse, List.nodup_reverse]
    exact hnodup
  ext value
  rw [lookup_eq_some_iff hreverse, lookup_eq_some_iff hnodup, List.mem_reverse]

/-- A record of which some fields are filled is accepted, and each field has the value of the
member of its name. -/
theorem Filled.ofValue_eq (record : String) (h : Filled fields members)
    (hnodup : (fields.map Field.name).Nodup) :
    ∃ values, ofValue record fields (.record members) = .ok values ∧
      ∀ name, values.lookup name = members.lookup name := by
  refine ⟨members.reverse ++ [], h.ofMembers_eq hnodup ?_ (fun _ _ => rfl), fun name => ?_⟩
  · intro field hfield
    exact find?_key_eq_some hnodup hfield
  · rw [List.append_nil, lookup_reverse (hnodup.sublist h.names_sublist)]

end Reading

end Fields

theorem lookup_optional (name other : String) (value? : Option Value) :
    (Value.optional name value?).lookup other = if other = name then value? else none := by
  cases value? with
  | none => simp [Value.optional]
  | some value =>
    by_cases heq : other = name
    · simp [Value.optional, heq]
    · simp [Value.optional, heq, List.lookup_cons, beq_false_of_ne heq]

end TagRules.Json

namespace TagRules

open Json
open Fields (Filled)

theorem SelectionMode.decoder_undoes : decoder.Undoes encode :=
  Decoder.variant_undoes (by decide) fun mode => by cases mode <;> decide

theorem TagKind.decoder_undoes : decoder.Undoes encode :=
  Decoder.variant_undoes (by decide) mem_all

theorem TagStatus.decoder_undoes : decoder.Undoes encode :=
  Decoder.variant_undoes (by decide) fun status => by cases status <;> decide

theorem Operator.decoder_undoes : decoder.Undoes encode :=
  Decoder.variant_undoes (by decide) fun op => by cases op <;> decide

theorem Selection.filled (selection : Selection) : Filled fields selection.members :=
  .required "key" Decoder.text_undoes selection.key <|
    .required "mode" SelectionMode.decoder_undoes selection.mode .nil

theorem Selection.decoder_undoes : decoder.Undoes encode where
  plain selection := selection.filled.plain
  decodes selection := by
    obtain ⟨values, hvalues, hlookup⟩ := selection.filled.ofValue_eq "TagSelection" (by decide)
    have hkey : Fields.get values "key" .text = .ok selection.key :=
      Fields.get_eq Decoder.text_undoes (hlookup "key")
    have hmode : Fields.get values "mode" SelectionMode.decoder = .ok selection.mode :=
      Fields.get_eq SelectionMode.decoder_undoes (hlookup "mode")
    simp only [decoder, encode, hvalues, bind, Except.bind, hkey, hmode]
    rfl

theorem Activity.filled (activity : Activity) : Filled fields activity.members :=
  .required "title" Decoder.text_undoes activity.title <|
    .defaulted "description" Decoder.text_undoes activity.description <|
      .defaulted "tagKeys" Decoder.text_undoes.list activity.tagKeys .nil

theorem Activity.decoder_undoes : decoder.Undoes encode where
  plain activity := activity.filled.plain
  decodes activity := by
    obtain ⟨values, hvalues, hlookup⟩ := activity.filled.ofValue_eq "Activity" (by decide)
    have htitle : Fields.get values "title" .text = .ok activity.title :=
      Fields.get_eq Decoder.text_undoes (hlookup "title")
    have hdescription : Fields.getD values "description" .text "" = .ok activity.description :=
      Fields.getD_eq Decoder.text_undoes (hlookup "description")
    have htagKeys : Fields.getD values "tagKeys" (.list .text) [] = .ok activity.tagKeys :=
      Fields.getD_eq Decoder.text_undoes.list (hlookup "tagKeys")
    simp only [decoder, encode, hvalues, bind, Except.bind, htitle, hdescription, htagKeys]
    rfl

theorem CatalogEntry.filled (entry : CatalogEntry) : Filled fields entry.members := by
  simp only [members, List.append_assoc, List.cons_append, List.nil_append]
  rw [← List.append_nil (Value.optional "supersededBy" _)]
  refine .required "key" Decoder.text_undoes entry.key ?_
  refine .required "label" Decoder.text_undoes entry.label ?_
  refine .required "kind" TagKind.decoder_undoes entry.kind ?_
  refine .defaulted "description" Decoder.text_undoes entry.description ?_
  refine .optional "parent" Decoder.text_undoes entry.parent ?_
  refine .defaulted "status" TagStatus.decoder_undoes entry.status ?_
  exact .optional "supersededBy" Decoder.text_undoes entry.supersededBy .nil

theorem CatalogEntry.decoder_undoes : decoder.Undoes encode where
  plain entry := entry.filled.plain
  decodes entry := by
    obtain ⟨values, hvalues, hlookup⟩ := entry.filled.ofValue_eq "CatalogEntry" (by decide)
    simp only [members, List.lookup_append, lookup_optional] at hlookup
    have hkey : Fields.get values "key" .text = .ok entry.key :=
      Fields.get_eq Decoder.text_undoes (hlookup "key")
    have hlabel : Fields.get values "label" .text = .ok entry.label :=
      Fields.get_eq Decoder.text_undoes (hlookup "label")
    have hkind : Fields.get values "kind" TagKind.decoder = .ok entry.kind :=
      Fields.get_eq TagKind.decoder_undoes (hlookup "kind")
    have hdescription : Fields.getD values "description" .text "" = .ok entry.description :=
      Fields.getD_eq Decoder.text_undoes (hlookup "description")
    have hparent : Fields.getD values "parent" (.option .text) none = .ok entry.parent :=
      Fields.getD_optional Decoder.text_undoes (by rw [hlookup]; simp [List.lookup_cons])
    have hstatus : Fields.getD values "status" TagStatus.decoder .active = .ok entry.status :=
      Fields.getD_eq TagStatus.decoder_undoes (by rw [hlookup]; simp [List.lookup_cons])
    have hsuperseded :
        Fields.getD values "supersededBy" (.option .text) none = .ok entry.supersededBy :=
      Fields.getD_optional Decoder.text_undoes (by rw [hlookup]; simp [List.lookup_cons])
    simp only [decoder, encode, hvalues, bind, Except.bind, hkey, hlabel, hkind, hdescription,
      hparent, hstatus, hsuperseded]
    rfl

/-- Entries of distinct keys are a catalog again. -/
theorem Catalog.decoder_undoes : decoder.Undoes encode where
  plain catalog := CatalogEntry.decoder_undoes.list.plain catalog.entries
  decodes catalog := by
    have hentries := CatalogEntry.decoder_undoes.list.decodes catalog.entries
    simp only [decoder, encode, hentries, bind, Except.bind, ofList_entries]
    rfl

theorem Clause.filled (clause : Clause) : Filled fields clause.members := by
  simp only [members, List.cons_append, List.nil_append]
  rw [← List.append_nil (Value.optional "joiner" _)]
  refine .required "source" Decoder.text_undoes clause.source ?_
  refine .required "matches" Decoder.bool_undoes clause.holds ?_
  refine .required "matchedTags" Decoder.text_undoes.list clause.matched ?_
  refine .required "missingTags" Decoder.text_undoes.list clause.missing ?_
  exact .optional "joiner" Operator.decoder_undoes clause.joiner .nil

theorem Clause.decoder_undoes : decoder.Undoes encode where
  plain clause := clause.filled.plain
  decodes clause := by
    obtain ⟨values, hvalues, hlookup⟩ := clause.filled.ofValue_eq "ClauseDetail" (by decide)
    simp only [members, List.lookup_append, lookup_optional] at hlookup
    have hsource : Fields.get values "source" .text = .ok clause.source :=
      Fields.get_eq Decoder.text_undoes (hlookup "source")
    have hmatches : Fields.get values "matches" .bool = .ok clause.holds :=
      Fields.get_eq Decoder.bool_undoes (hlookup "matches")
    have hmatched : Fields.get values "matchedTags" (.list .text) = .ok clause.matched :=
      Fields.get_eq Decoder.text_undoes.list (hlookup "matchedTags")
    have hmissing : Fields.get values "missingTags" (.list .text) = .ok clause.missing :=
      Fields.get_eq Decoder.text_undoes.list (hlookup "missingTags")
    have hjoiner :
        Fields.getD values "joiner" (.option Operator.decoder) none = .ok clause.joiner :=
      Fields.getD_optional Operator.decoder_undoes (by rw [hlookup]; simp [List.lookup_cons])
    simp only [decoder, encode, hvalues, bind, Except.bind, hsource, hmatches, hmatched, hmissing,
      hjoiner]
    rfl

theorem Explanation.filled (explanation : Explanation) : Filled fields explanation.members :=
  .required "matches" Decoder.bool_undoes explanation.holds <|
    .required "clauses" Clause.decoder_undoes.list explanation.clauses .nil

theorem Explanation.decoder_undoes : decoder.Undoes encode where
  plain explanation := explanation.filled.plain
  decodes explanation := by
    obtain ⟨values, hvalues, hlookup⟩ := explanation.filled.ofValue_eq "Explanation" (by decide)
    have hmatches : Fields.get values "matches" .bool = .ok explanation.holds :=
      Fields.get_eq Decoder.bool_undoes (hlookup "matches")
    have hclauses : Fields.get values "clauses" (.list Clause.decoder) = .ok explanation.clauses :=
      Fields.get_eq Clause.decoder_undoes.list (hlookup "clauses")
    simp only [decoder, encode, hvalues, bind, Except.bind, hmatches, hclauses]
    rfl

/-- What is written as JSON on one line is read back as it was, whatever texts and lists it
holds and whichever of its optional fields have a value. A catalog that is read back still
finds each of its entries by its key, and nothing by any other key. -/
theorem written_data_reads_back :
    (∀ activity : Activity, decode Activity.decoder activity.encode.toCompact = .ok activity) ∧
      (∀ activities : List Activity,
        decode (.list Activity.decoder) (Value.list Activity.encode activities).toCompact =
          .ok activities) ∧
      (∀ entry : CatalogEntry,
        decode CatalogEntry.decoder entry.encode.toCompact = .ok entry) ∧
      (∀ catalog : Catalog, ∃ again,
        decode Catalog.decoder catalog.encode.toCompact = .ok again ∧ again = catalog ∧
          ∀ key entry, again.get? key = some entry ↔
            entry ∈ catalog.entries ∧ entry.key = key) ∧
      (∀ selection : Selection,
        decode Selection.decoder selection.encode.toCompact = .ok selection) ∧
      (∀ clause : Clause, decode Clause.decoder clause.encode.toCompact = .ok clause) ∧
      (∀ explanation : Explanation,
        decode Explanation.decoder explanation.encode.toCompact = .ok explanation) := by
  refine ⟨Activity.decoder_undoes.decode_toCompact, Activity.decoder_undoes.list.decode_toCompact,
    CatalogEntry.decoder_undoes.decode_toCompact, fun catalog => ?_,
    Selection.decoder_undoes.decode_toCompact, Clause.decoder_undoes.decode_toCompact,
    Explanation.decoder_undoes.decode_toCompact⟩
  exact ⟨catalog, Catalog.decoder_undoes.decode_toCompact catalog, rfl,
    fun _ _ => Catalog.get?_eq_some_iff⟩

example : (Selection.mk "\x01\"é" .anyOf).encode.toCompact =
    "\x7b\"key\":\"\\u0001\\\"é\",\"mode\":\"any_of\"\x7d" := by
  decide +kernel

end TagRules
