import Mathlib.Algebra.GroupWithZero.Nat
import TagRules.Proofs.DistinctKeys

/-!
Catalogs and the index of their keys. A list of entries makes a catalog unless a key comes twice,
and then the first key that does is reported. An index that is filled along the list, entry by
entry, stops at the same key; where it is complete, each key leads to the place of its entry, so
that a lookup by the index finds what a search through the entries finds.
-/

namespace TagRules.Catalog

variable {seen keys : List String} {key : String} {entries front rest : List CatalogEntry}
  {entry : CatalogEntry} {catalog : Catalog} {error : DuplicateKey}

theorem firstRepeat?_eq_none_iff :
    firstRepeat? seen keys = none ↔ keys.Nodup ∧ ∀ key ∈ keys, key ∉ seen :=
  ⟨nodup_of_firstRepeat?_eq_none, fun ⟨hnodup, hseen⟩ => firstRepeat?_eq_none hnodup hseen⟩

theorem firstRepeat?_eq_some_iff :
    firstRepeat? seen keys = some key ↔ ∃ front back, keys = front ++ key :: back ∧
      firstRepeat? seen front = none ∧ (key ∈ seen ∨ key ∈ front) := by
  induction keys generalizing seen with
  | nil => simp [firstRepeat?]
  | cons first rest ih =>
    rw [firstRepeat?]
    split
    · next hmem =>
      constructor
      · intro h
        cases h
        exact ⟨[], rest, rfl, rfl, Or.inl hmem⟩
      · rintro ⟨front, back, hkeys, hnone, -⟩
        cases front with
        | nil => rw [(List.cons.inj hkeys).1]
        | cons other front =>
          obtain rfl := (List.cons.inj hkeys).1
          rw [firstRepeat?, if_pos hmem] at hnone
          cases hnone
    · next hnew =>
      rw [ih]
      constructor
      · rintro ⟨front, back, rfl, hnone, hmem⟩
        refine ⟨first :: front, back, rfl, by rwa [firstRepeat?, if_neg hnew], ?_⟩
        rw [List.mem_cons] at hmem ⊢
        tauto
      · rintro ⟨front, back, hkeys, hnone, hmem⟩
        cases front with
        | nil =>
          obtain rfl := (List.cons.inj hkeys).1
          exact absurd (hmem.resolve_right List.not_mem_nil) hnew
        | cons other front =>
          obtain ⟨rfl, rfl⟩ := List.cons.inj hkeys
          rw [firstRepeat?, if_neg hnew] at hnone
          refine ⟨front, back, rfl, hnone, ?_⟩
          rw [List.mem_cons] at hmem ⊢
          tauto

/-- The key of the first entry whose key an earlier entry has. -/
def Repeats (entries : List CatalogEntry) (key : String) : Prop :=
  ∃ front entry back, entries = front ++ entry :: back ∧ (front.map CatalogEntry.key).Nodup ∧
    entry.key ∈ front.map CatalogEntry.key ∧ entry.key = key

theorem repeats_iff :
    Repeats entries key ↔ firstRepeat? [] (entries.map CatalogEntry.key) = some key := by
  rw [firstRepeat?_eq_some_iff]
  constructor
  · rintro ⟨front, entry, back, rfl, hnodup, hmem, rfl⟩
    refine ⟨front.map CatalogEntry.key, back.map CatalogEntry.key, ?_, ?_, Or.inr hmem⟩
    · rw [List.map_append, List.map_cons]
    · exact firstRepeat?_eq_none hnodup fun _ _ => List.not_mem_nil
  · rintro ⟨keys, others, hkeys, hnone, hmem⟩
    obtain ⟨front, rest, rfl, rfl, hrest⟩ := List.map_eq_append_iff.1 hkeys
    obtain ⟨entry, back, rfl, rfl, -⟩ := List.map_eq_cons_iff.1 hrest
    exact ⟨front, entry, back, rfl, (firstRepeat?_eq_none_iff.1 hnone).1,
      hmem.resolve_left List.not_mem_nil, rfl⟩

theorem duplicateKey_eq_iff : DuplicateKey.mk key = error ↔ key = error.key := by
  cases error
  rw [DuplicateKey.mk.injEq]

theorem ofList_eq_error_iff : ofList entries = .error error ↔ Repeats entries error.key := by
  rw [repeats_iff]
  unfold ofList
  split
  · next key hsome =>
    rw [hsome, Except.error.injEq, Option.some.injEq, duplicateKey_eq_iff]
  · next hnone => simp [hnone]

theorem ofList_eq_ok_iff :
    ofList entries = .ok catalog ↔
      (entries.map CatalogEntry.key).Nodup ∧ catalog.entries = entries := by
  constructor
  · intro h
    unfold ofList at h
    split at h
    · cases h
    · next hnone =>
      cases h
      exact ⟨(firstRepeat?_eq_none_iff.1 hnone).1, rfl⟩
  · rintro ⟨-, rfl⟩
    exact ofList_entries catalog

/-- Enters the key of each entry with the place of the entry, counted from `place` on. -/
def enter (places : Std.HashMap String Nat) (place : Nat) :
    List CatalogEntry → Except DuplicateKey (Std.HashMap String Nat)
  | [] => .ok places
  | entry :: rest =>
    if entry.key ∈ places then .error ⟨entry.key⟩
    else enter (places.insert entry.key place) (place + 1) rest

/-- The place of each entry among the others, to be found by its key. -/
def index (entries : List CatalogEntry) : Except DuplicateKey (Std.HashMap String Nat) :=
  enter ∅ 0 entries

/-- What is found of a key by its place. -/
def findAt (places : Std.HashMap String Nat) (entries : List CatalogEntry) (key : String) :
    Option CatalogEntry :=
  places[key]?.bind (entries[·]?)

variable {places after : Std.HashMap String Nat}

theorem indexes_of_enter (h : Indexes places (front.map CatalogEntry.key))
    (henter : enter places front.length rest = .ok after) :
    Indexes after ((front ++ rest).map CatalogEntry.key) := by
  induction rest generalizing places front with
  | nil =>
    cases henter
    rwa [List.append_nil]
  | cons entry rest ih =>
    rw [enter] at henter
    split at henter
    · cases henter
    · next hnew =>
      have hgrown := h.concat (mt h.mem_iff.2 hnew)
      rw [List.length_map, ← List.map_singleton, ← List.map_append] at hgrown
      have hlength : (front ++ [entry]).length = front.length + 1 := List.length_append
      rw [← hlength] at henter
      have hafter := ih hgrown henter
      rwa [List.append_assoc] at hafter

theorem indexes_of_index (h : index entries = .ok places) :
    Indexes places (entries.map CatalogEntry.key) := by
  have hempty : Indexes ∅ (([] : List CatalogEntry).map CatalogEntry.key) := Indexes.empty
  exact indexes_of_enter hempty h

/-- The index stops where a key comes twice for the first time. -/
theorem enter_eq_error_iff (hseen : ∀ key, key ∈ places ↔ key ∈ seen) (place : Nat) :
    enter places place entries = .error error ↔
      firstRepeat? seen (entries.map CatalogEntry.key) = some error.key := by
  induction entries generalizing places seen place with
  | nil => simp [enter, firstRepeat?]
  | cons entry rest ih =>
    have hinsert : ∀ key, key ∈ places.insert entry.key place ↔ key ∈ entry.key :: seen := by
      intro key
      rw [Std.HashMap.mem_insert, beq_iff_eq, List.mem_cons, hseen, eq_comm]
    rw [enter, List.map_cons, firstRepeat?]
    by_cases hmem : entry.key ∈ seen
    · rw [if_pos ((hseen _).2 hmem), if_pos hmem, Except.error.injEq, Option.some.injEq,
        duplicateKey_eq_iff]
    · rw [if_neg (mt (hseen _).1 hmem), if_neg hmem]
      exact ih hinsert _

theorem index_eq_error_iff : index entries = .error error ↔ Repeats entries error.key := by
  rw [repeats_iff]
  exact enter_eq_error_iff (by simp) 0

theorem get?_eq_none_iff :
    catalog.get? key = none ↔ ∀ entry ∈ catalog.entries, entry.key ≠ key := by
  simp [get?]

/-- A lookup by place finds what a search finds. -/
theorem findAt_eq_get? (h : Indexes places (catalog.entries.map CatalogEntry.key))
    (key : String) : findAt places catalog.entries key = catalog.get? key := by
  rw [findAt]
  cases hplace : places[key]? with
  | none =>
    rw [Option.bind_none, eq_comm, get?_eq_none_iff]
    intro entry hentry hkey
    have hmem : key ∈ places := h.mem_iff.2 (List.mem_map.2 ⟨entry, hentry, hkey⟩)
    rw [Std.HashMap.mem_iff_isSome_getElem?, hplace] at hmem
    cases hmem
  | some place =>
    have hkey := (h key place).1 hplace
    rw [List.getElem?_map, Option.map_eq_some_iff] at hkey
    obtain ⟨entry, hfound, hkey⟩ := hkey
    rw [Option.bind_some, hfound, eq_comm, get?_eq_some_iff]
    exact ⟨List.mem_of_getElem? hfound, hkey⟩

theorem exists_index (catalog : Catalog) :
    ∃ places, index catalog.entries = .ok places ∧
      ∀ key, catalog.get? key = findAt places catalog.entries key := by
  cases hindex : index catalog.entries with
  | error error =>
    have hrefused := ofList_eq_error_iff.2 (index_eq_error_iff.1 hindex)
    rw [ofList_entries] at hrefused
    cases hrefused
  | ok places =>
    have hindexes := indexes_of_index hindex
    exact ⟨places, rfl, fun key => (findAt_eq_get? hindexes key).symm⟩

theorem mem_ofKind {kind : TagKind} :
    entry ∈ catalog.ofKind kind ↔ entry ∈ catalog.entries ∧ entry.kind = kind := by
  rw [ofKind, List.mem_filter, decide_eq_true_eq]

/-- Every entry is counted under one kind. -/
theorem sum_length_ofKind (catalog : Catalog) :
    (TagKind.all.map (fun kind => (catalog.ofKind kind).length)).sum = catalog.size := by
  simp only [ofKind, size, ← List.countP_eq_length_filter]
  induction catalog.entries with
  | nil => rfl
  | cons entry rest ih =>
    simp only [List.countP_cons, List.length_cons, TagKind.all, List.map_cons, List.map_nil,
      List.sum_cons, List.sum_nil] at ih ⊢
    cases entry.kind <;> simp <;> omega

/-- The catalog is one of the entries, and it answers for each of them. -/
structure Serves (catalog : Catalog) (entries : List CatalogEntry) : Prop where
  in_order : catalog.entries = entries
  found : ∀ key entry, catalog.get? key = some entry ↔ entry ∈ entries ∧ entry.key = key
  missing : ∀ key, catalog.get? key = none ↔ key ∉ entries.map CatalogEntry.key
  /-- A lookup by the index finds the same. -/
  indexed : ∃ places, index entries = .ok places ∧
    ∀ key, catalog.get? key = findAt places entries key
  labelled : ∀ entry ∈ entries, catalog.labelOf entry.key = entry.label
  unlabelled : ∀ key ∉ entries.map CatalogEntry.key, catalog.labelOf key = key
  by_kind : ∀ kind, (catalog.ofKind kind).Sublist entries
  mem_by_kind : ∀ kind entry,
    entry ∈ catalog.ofKind kind ↔ entry ∈ entries ∧ entry.kind = kind
  one_kind : ∀ entry ∈ entries, ∃! kind, entry ∈ catalog.ofKind kind
  sizes : (TagKind.all.map (fun kind => (catalog.ofKind kind).length)).sum = catalog.size

theorem serves_entries (catalog : Catalog) : catalog.Serves catalog.entries := by
  have hmissing : ∀ key, catalog.get? key = none ↔ key ∉ catalog.entries.map CatalogEntry.key := by
    intro key
    rw [get?_eq_none_iff, List.mem_map]
    push Not
    rfl
  refine ⟨rfl, fun _ _ => get?_eq_some_iff, hmissing, catalog.exists_index, ?_, ?_,
    fun _ => List.filter_sublist, fun _ _ => mem_ofKind, ?_, catalog.sum_length_ofKind⟩
  · intro entry hentry
    rw [labelOf, get?_eq_some_iff.2 ⟨hentry, rfl⟩]
  · intro key hkey
    rw [labelOf, (hmissing key).2 hkey]
  · intro entry hentry
    refine ⟨entry.kind, mem_ofKind.2 ⟨hentry, rfl⟩, ?_⟩
    intro kind hkind
    exact (mem_ofKind.1 hkind).2.symm

/-- A list of entries makes a catalog exactly where their keys are distinct. Otherwise the first
key that an earlier entry has is reported, and it is there that the index stops. A catalog that
is made answers for its entries. -/
theorem ofList_serves_or_repeats (entries : List CatalogEntry) :
    ((∃ catalog, ofList entries = .ok catalog) ↔ (entries.map CatalogEntry.key).Nodup) ∧
    (∀ error, ofList entries = .error error ↔ Repeats entries error.key) ∧
    (∀ error, index entries = .error error ↔ Repeats entries error.key) ∧
    ∀ catalog, ofList entries = .ok catalog → catalog.Serves entries := by
  refine ⟨?_, fun _ => ofList_eq_error_iff, fun _ => index_eq_error_iff, ?_⟩
  · constructor
    · rintro ⟨catalog, hcatalog⟩
      exact (ofList_eq_ok_iff.1 hcatalog).1
    · intro hnodup
      exact ⟨⟨entries, hnodup⟩, ofList_eq_ok_iff.2 ⟨hnodup, rfl⟩⟩
  · intro catalog hcatalog
    obtain ⟨-, rfl⟩ := ofList_eq_ok_iff.1 hcatalog
    exact catalog.serves_entries

/-- Two entries behind the others have keys that are taken, and the first of them is reported. -/
theorem ofList_serves_or_repeats_of_three_entries :
    let reef := CatalogEntry.plain "reef" "Reef" .ecosystem
    let openData := CatalogEntry.plain "open_data" "Open data" .data
    let kelp := CatalogEntry.plain "kelp" "Kelp forest" .ecosystem
    let entries := [reef, openData, kelp]
    let catalog : Catalog := ⟨entries, by decide⟩
    ofList entries = .ok catalog ∧ catalog.get? "open_data" = some openData ∧
      catalog.labelOf "kelp" = "Kelp forest" ∧ catalog.labelOf "moss" = "moss" ∧
      kelp ∈ catalog.ofKind .ecosystem ∧ kelp ∉ catalog.ofKind .data ∧
      ofList (entries ++ [openData, reef]) = .error ⟨"open_data"⟩ := by
  intro reef openData kelp entries catalog
  have hcatalog : ofList entries = .ok catalog := catalog.ofList_entries
  have hkelp : kelp ∈ catalog.ofKind .ecosystem := by decide +kernel
  obtain ⟨-, hrepeats, -, -⟩ := ofList_serves_or_repeats (entries ++ [openData, reef])
  have hrefused := (hrepeats ⟨"open_data"⟩).2
    ⟨entries, openData, [reef], rfl, by decide, by decide, rfl⟩
  obtain ⟨-, -, -, hserves⟩ := ofList_serves_or_repeats entries
  have hall := hserves catalog hcatalog
  refine ⟨hcatalog, (hall.found _ _).2 ⟨by decide, rfl⟩, hall.labelled kelp (by decide),
    hall.unlabelled "moss" (by decide), hkelp, ?_, hrefused⟩
  intro hdata
  exact absurd ((hall.one_kind kelp (by decide)).unique hkelp hdata) (by decide)

end TagRules.Catalog
