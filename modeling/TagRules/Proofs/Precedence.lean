import TagRules.Proofs.DistinctKeys
import TagRules.Proofs.Histories
import TagRules.Proofs.Sessions
import TagRules.Proofs.Synthesis

/-!
Rules built from the command line. Selecting keys one after the other leaves each key in the
place of its first selection, with the mode of its last, and every selection but a key's first
is warned about. So of the groups that name a key the later one decides how the key bears on
the rule, and the rule asks for nothing that cannot be had.
-/

namespace TagRules

open Text (byteSize)

namespace Selection

variable {selections : List Selection} {key : String} {mode : SelectionMode}

/-- The mode that a key was last selected in. -/
def lastMode? (selections : List Selection) (key : String) : Option SelectionMode :=
  (selections.reverse.find? (·.key = key)).map Selection.mode

theorem lastMode?_append (earlier later : List Selection) (key : String) :
    lastMode? (earlier ++ later) key = (lastMode? later key).or (lastMode? earlier key) := by
  rw [lastMode?, List.reverse_append, List.find?_append, Option.map_or]
  rfl

theorem lastMode?_singleton (selection : Selection) (key : String) :
    lastMode? [selection] key = if selection.key = key then some selection.mode else none := by
  rw [lastMode?, List.reverse_singleton]
  by_cases heq : selection.key = key
  · simp [heq]
  · simp [heq]

theorem lastMode?_eq_none_iff : lastMode? selections key = none ↔
    key ∉ selections.map Selection.key := by
  simp [lastMode?]

theorem mem_of_lastMode? (h : lastMode? selections key = some mode) :
    key ∈ selections.map Selection.key := by
  by_contra hnot
  rw [lastMode?_eq_none_iff.2 hnot] at h
  cases h

/-- The keys, each selected in the same mode. -/
def inMode (mode : SelectionMode) (keys : List String) : List Selection :=
  keys.map (⟨·, mode⟩)

theorem map_key_inMode (mode : SelectionMode) (keys : List String) :
    (inMode mode keys).map Selection.key = keys := by
  rw [inMode, List.map_map]
  exact List.map_id keys

theorem lastMode?_inMode (mode : SelectionMode) (keys : List String) (key : String) :
    lastMode? (inMode mode keys) key = if key ∈ keys then some mode else none := by
  by_cases hkey : key ∈ keys
  · rw [if_pos hkey]
    cases hlast : lastMode? (inMode mode keys) key with
    | none =>
      rw [lastMode?_eq_none_iff, map_key_inMode] at hlast
      exact absurd hkey hlast
    | some last =>
      obtain ⟨selection, hfound, rfl⟩ := Option.map_eq_some_iff.1 hlast
      obtain ⟨_, -, rfl⟩ := List.mem_map.1 (List.mem_reverse.1 (List.mem_of_find?_eq_some hfound))
      rfl
  · rw [if_neg hkey, lastMode?_eq_none_iff, map_key_inMode]
    exact hkey

/-- The selections that the three groups of keys on a command line make. -/
def ofGroups (all any exclude : List String) : List Selection :=
  inMode .mustHaveAll all ++ inMode .anyOf any ++ inMode .exclude exclude

/-- The mode of a key that the command line names: the last of its groups decides. -/
def modeByGroup (any exclude : List String) (key : String) : SelectionMode :=
  if key ∈ exclude then .exclude else if key ∈ any then .anyOf else .mustHaveAll

variable {all any exclude : List String}

theorem map_key_ofGroups (all any exclude : List String) :
    (ofGroups all any exclude).map Selection.key = all ++ any ++ exclude := by
  rw [ofGroups, List.map_append, List.map_append, map_key_inMode, map_key_inMode, map_key_inMode]

theorem lastMode?_ofGroups (h : key ∈ all ++ any ++ exclude) :
    lastMode? (ofGroups all any exclude) key = some (modeByGroup any exclude key) := by
  rw [ofGroups, lastMode?_append, lastMode?_append, lastMode?_inMode, lastMode?_inMode,
    lastMode?_inMode, modeByGroup]
  by_cases hexclude : key ∈ exclude
  · rw [if_pos hexclude, if_pos hexclude, Option.some_or]
  by_cases hany : key ∈ any
  · rw [if_neg hexclude, if_neg hexclude, if_pos hany, if_pos hany, Option.none_or, Option.some_or]
  · have hall : key ∈ all := by simpa [hexclude, hany] using h
    rw [if_neg hexclude, if_neg hexclude, if_neg hany, if_neg hany, if_pos hall, Option.none_or,
      Option.none_or]

/-- The distinct keys of the groups in the order in which they first occur, each in the mode
of the last group that names it. -/
def decided (all any exclude : List String) : List Selection :=
  (all ++ any ++ exclude).eraseDups.map (fun key => ⟨key, modeByGroup any exclude key⟩)

theorem mem_decided : ⟨key, mode⟩ ∈ decided all any exclude ↔
    key ∈ all ++ any ++ exclude ∧ modeByGroup any exclude key = mode := by
  rw [decided, List.mem_map]
  constructor
  · rintro ⟨other, hmem, heq⟩
    obtain ⟨rfl, hmode⟩ := Selection.mk.inj heq
    exact ⟨List.mem_eraseDups.1 hmem, hmode⟩
  · rintro ⟨hmem, rfl⟩
    exact ⟨key, List.mem_eraseDups.2 hmem, rfl⟩

theorem map_key_decided (all any exclude : List String) :
    (decided all any exclude).map Selection.key = (all ++ any ++ exclude).eraseDups := by
  rw [decided, List.map_map]
  exact List.map_id _

/-- The rule of the groups holds of the tags that bear it out, and of no others. -/
theorem exists_rule_of_decided (hne : all ++ any ++ exclude ≠ [])
    (hkeys : Quotable (all ++ any ++ exclude))
    (hfits : byteSize (expression (decided all any exclude)).toList ≤ Limits.largest) :
    ∃ rule, Rule.parse .unbounded (expression (decided all any exclude)) = .ok rule ∧
      ∀ tags, rule.holds tags = true ↔
        (∀ key ∈ all ++ any ++ exclude, modeByGroup any exclude key = .mustHaveAll → key ∈ tags) ∧
        ((∃ key ∈ all ++ any ++ exclude, modeByGroup any exclude key = .anyOf) →
          ∃ key ∈ all ++ any ++ exclude, modeByGroup any exclude key = .anyOf ∧ key ∈ tags) ∧
        ∀ key ∈ all ++ any ++ exclude, modeByGroup any exclude key = .exclude → key ∉ tags := by
  have hdecided : decided all any exclude ≠ [] := by
    obtain ⟨key, hkey⟩ := List.exists_mem_of_ne_nil _ hne
    exact List.ne_nil_of_mem (mem_decided.2 ⟨hkey, rfl⟩)
  have hquotable : Quotable (tree (decided all any exclude)).keys := by
    intro key hkey
    have hmem := keys_tree_subset hkey
    rw [map_key_decided, List.mem_eraseDups] at hmem
    exact hkeys key hmem
  have htext : (toString (tree (decided all any exclude))).toList =
      (tree (decided all any exclude)).text := String.toList_ofList
  rw [expression_of_ne_nil hdecided] at hfits ⊢
  rw [htext] at hfits
  have hdepth : 1 ≤ Limits.unbounded.maxDepth := by decide
  refine ⟨_, Rule.parse_toString (branching_tree hdecided) hquotable hfits
    (Nat.le_trans depth_tree_le hdepth), ?_⟩
  intro tags
  rw [Rule.holds, Expr.holds_flatten, holds_tree_iff, all_holds_conditions]
  simp only [mem_decided, and_imp, and_assoc]

end Selection

namespace SelectionSet

variable {set : SelectionSet} {selections : List Selection}

/-- The set holds what the selections say: their keys in the order in which these first
occur, each in the mode of its last selection. -/
structure Reflects (selections : List Selection) (set : SelectionSet) : Prop where
  keys : set.entries.map Selection.key = (selections.map Selection.key).eraseDups
  modes : ∀ key, set.modeOf? key = Selection.lastMode? selections key

namespace Reflects

theorem empty : Reflects [] SelectionSet.empty :=
  ⟨rfl, fun _ => rfl⟩

theorem insert (h : Reflects selections set) (selection : Selection) :
    Reflects (selections ++ [selection]) (set.insert selection.key selection.mode) := by
  constructor
  · have hkeys := keys_put_some set selection.key selection.mode
    rw [h.keys] at hkeys
    rw [List.map_append, List.map_singleton, eraseDups_concat]
    exact hkeys
  · intro key
    have hmode := modeOf?_put set selection.key key (some selection.mode)
    rw [h.modes] at hmode
    rw [Selection.lastMode?_append, Selection.lastMode?_singleton]
    refine hmode.trans ?_
    split <;> rfl

theorem entries_eq {mode : String → SelectionMode} (h : Reflects selections set)
    (hmode : ∀ key ∈ selections.map Selection.key,
      Selection.lastMode? selections key = some (mode key)) :
    set.entries = (selections.map Selection.key).eraseDups.map (fun key => ⟨key, mode key⟩) := by
  have hentry : ∀ entry ∈ set.entries, (⟨entry.key, mode entry.key⟩ : Selection) = entry := by
    intro entry hmem
    have hkey : entry.key ∈ selections.map Selection.key := by
      rw [← List.mem_eraseDups, ← h.keys]
      exact List.mem_map_of_mem hmem
    have hlast := hmode entry.key hkey
    rw [← h.modes, mem_entries_iff.1 hmem] at hlast
    rw [← Option.some.inj hlast]
  rw [← h.keys, List.map_map]
  exact ((List.map_congr_left hentry).trans (List.map_id _)).symm

end Reflects

end SelectionSet

namespace CommandLine

variable {set : SelectionSet} {earlier selections : List Selection} {key : String}

/-- What is logged while keys are selected after earlier selections. -/
def warnings (earlier : List Selection) : List Selection → List Log.Record
  | [] => []
  | selection :: rest =>
    ((Selection.lastMode? earlier selection.key).map (selectedAgain selection)).toList ++
      warnings (earlier ++ [selection]) rest

theorem run_selections (h : SelectionSet.Reflects earlier set) (selections : List Selection)
    (console : Console) :
    ∃ after, SelectionSet.Reflects (earlier ++ selections) after ∧
      (selections.foldlM selectOnce set).run.run console =
        (.ok after, ⟨console.stdout, console.records ++ warnings earlier selections⟩) := by
  induction selections generalizing earlier set console with
  | nil =>
    refine ⟨set, ?_, ?_⟩
    · rwa [List.append_nil]
    · rw [warnings, List.append_nil]
      rfl
  | cons selection rest ih =>
    obtain ⟨after, hreflects, hrun⟩ := ih (h.insert selection) ⟨console.stdout, console.records ++
      ((set.modeOf? selection.key).map (selectedAgain selection)).toList⟩
    refine ⟨after, ?_, ?_⟩
    · rwa [List.append_assoc] at hreflects
    · rw [List.foldlM_cons, Session.run_bind_ok (run_selectOnce set selection console), hrun,
        warnings, ← h.modes, List.append_assoc]

theorem level_of_mem_warnings {record : Log.Record} (h : record ∈ warnings earlier selections) :
    record.level = .warn := by
  induction selections generalizing earlier with
  | nil => cases h
  | cons selection rest ih =>
    rw [warnings, List.mem_append, Option.mem_toList, Option.map_eq_some_iff] at h
    obtain ⟨previous, -, rfl⟩ | hrest := h
    · rfl
    · exact ih hrest

/-- Whether a record has the key in its fields. -/
def names (key : String) (record : Log.Record) : Bool :=
  record.fields.contains ("key", .text key)

theorem names_selectedAgain (key : String) (selection : Selection) (previous : SelectionMode) :
    names key (selectedAgain selection previous) = decide (selection.key = key) := by
  rw [Bool.eq_iff_iff]
  simp [names, selectedAgain, eq_comm]

theorem countP_warning (key : String) (earlier : List Selection) (selection : Selection) :
    ((Selection.lastMode? earlier selection.key).map (selectedAgain selection)).toList.countP
      (names key) = if selection.key = key ∧ key ∈ earlier.map Selection.key then 1 else 0 := by
  cases hlast : Selection.lastMode? earlier selection.key with
  | none =>
    rw [if_neg]
    · rfl
    · rintro ⟨rfl, hmem⟩
      exact Selection.lastMode?_eq_none_iff.1 hlast hmem
  | some previous =>
    have hmem := Selection.mem_of_lastMode? hlast
    rw [Option.map_some, Option.toList_some, List.countP_singleton, names_selectedAgain]
    by_cases heq : selection.key = key
    · rw [heq] at hmem
      simp [heq, hmem]
    · simp [heq]

/-- Of the selections of a key, each is warned about that is not the first of all. -/
theorem countP_warnings (key : String) (earlier selections : List Selection) :
    (warnings earlier selections).countP (names key) =
      if key ∈ earlier.map Selection.key then (selections.map Selection.key).count key
      else (selections.map Selection.key).count key - 1 := by
  induction selections generalizing earlier with
  | nil => simp [warnings]
  | cons selection rest ih =>
    rw [warnings, List.countP_append, countP_warning, ih, List.map_append, List.map_singleton,
      List.map_cons, List.count_cons]
    by_cases heq : selection.key = key
    · by_cases hseen : key ∈ earlier.map Selection.key
      · simp [heq, hseen, Nat.add_comm]
      · simp [heq, hseen]
    · have hne : ¬key = selection.key := fun h => heq h.symm
      simp [heq, hne]

/-- Every selection is the first of its key or is warned about. -/
theorem length_warnings (earlier selections : List Selection) :
    (warnings earlier selections).length +
        ((earlier ++ selections).map Selection.key).eraseDups.length =
      (earlier.map Selection.key).eraseDups.length + selections.length := by
  induction selections generalizing earlier with
  | nil => simp [warnings]
  | cons selection rest ih =>
    have hrest := ih (earlier ++ [selection])
    have hhere : ((Selection.lastMode? earlier selection.key).map
        (selectedAgain selection)).toList.length +
          ((earlier ++ [selection]).map Selection.key).eraseDups.length =
        (earlier.map Selection.key).eraseDups.length + 1 := by
      rw [List.map_append, List.map_singleton, eraseDups_concat]
      cases hlast : Selection.lastMode? earlier selection.key with
      | none =>
        rw [Selection.lastMode?_eq_none_iff, ← List.mem_eraseDups] at hlast
        simp [withKey, hlast]
      | some previous =>
        have hmem := Selection.mem_of_lastMode? hlast
        rw [withKey_of_mem (List.mem_eraseDups.2 hmem), Option.map_some, Option.toList_some,
          List.length_singleton, Nat.add_comm]
    rw [List.append_assoc, List.singleton_append] at hrest
    rw [warnings, List.length_append, List.length_cons]
    omega

theorem run_runBuild (all any exclude : List String) (console : Console) :
    (runBuild all any exclude).run.run console =
      (.ok (), ⟨console.stdout ++ Selection.expression (Selection.decided all any exclude) ++ "\n",
        console.records ++ warnings [] (Selection.ofGroups all any exclude)⟩) := by
  obtain ⟨set, hreflects, hrun⟩ :=
    run_selections .empty (Selection.ofGroups all any exclude) console
  rw [List.nil_append] at hreflects
  have hmode : ∀ key ∈ (Selection.ofGroups all any exclude).map Selection.key,
      Selection.lastMode? (Selection.ofGroups all any exclude) key =
        some (Selection.modeByGroup any exclude key) := by
    intro key hkey
    rw [Selection.map_key_ofGroups] at hkey
    exact Selection.lastMode?_ofGroups hkey
  have hentries : set.entries = Selection.decided all any exclude := by
    rw [hreflects.entries_eq hmode, Selection.map_key_ofGroups, Selection.decided]
  refine (Session.run_bind_ok hrun).trans ?_
  rw [Session.run_print, SelectionSet.expression, hentries]

/-- The rule that is printed asks for each key as the last of its groups says, and there are
tags that it holds of. Each further occurrence of a key is warned about, and nothing else. The
largest bound is one that no text of this world exceeds. -/
theorem later_groups_win (limits : Limits) (files : Files) (all any exclude : List String)
    (console : Console) :
    let words := all ++ any ++ exclude
    let mode := Selection.modeByGroup any exclude
    let text := Selection.expression (words.eraseDups.map (fun key => ⟨key, mode key⟩))
    let records := warnings [] (Selection.ofGroups all any exclude)
    ((Command.build all any exclude).run limits files).run.run console =
      (.ok (), ⟨console.stdout ++ text ++ "\n", console.records ++ records⟩) ∧
    (∀ record ∈ records, record.level = .warn) ∧
    (∀ key, records.countP (names key) = words.count key - 1) ∧
    records.length + words.eraseDups.length = words.length ∧
    (words ≠ [] → Quotable words → byteSize text.toList ≤ Limits.largest →
      ∃ rule, Rule.parse .unbounded text = .ok rule ∧
        (∀ tags, rule.holds tags = true ↔
          (∀ key ∈ words, mode key = .mustHaveAll → key ∈ tags) ∧
          ((∃ key ∈ words, mode key = .anyOf) → ∃ key ∈ words, mode key = .anyOf ∧ key ∈ tags) ∧
          ∀ key ∈ words, mode key = .exclude → key ∉ tags) ∧
        rule.holds (.ofList (words.filter (mode · ≠ .exclude))) = true) := by
  intro words mode text records
  have hwords : (Selection.ofGroups all any exclude).map Selection.key = words :=
    Selection.map_key_ofGroups all any exclude
  refine ⟨run_runBuild all any exclude console, fun _ => level_of_mem_warnings, ?_, ?_, ?_⟩
  · intro key
    rw [countP_warnings, hwords]
    exact if_neg List.not_mem_nil
  · have hlength := length_warnings [] (Selection.ofGroups all any exclude)
    rwa [List.nil_append, hwords, List.map_nil, List.eraseDups_nil, List.length_nil, Nat.zero_add,
      ← List.length_map Selection.key, hwords] at hlength
  · intro hne hkeys hfits
    obtain ⟨rule, hparse, hholds⟩ := Selection.exists_rule_of_decided hne hkeys hfits
    have hwanted {key : String} (hkey : key ∈ words) (hmode : mode key ≠ .exclude) :
        key ∈ TagSet.ofList (words.filter (mode · ≠ .exclude)) :=
      TagSet.mem_ofList.2 (List.mem_filter.2 ⟨hkey, decide_eq_true hmode⟩)
    refine ⟨rule, hparse, hholds, (hholds _).2 ⟨?_, ?_, ?_⟩⟩
    · intro key hkey hmode
      exact hwanted hkey (hmode.trans_ne nofun)
    · rintro ⟨key, hkey, hmode⟩
      exact ⟨key, hkey, hmode, hwanted hkey (hmode.trans_ne nofun)⟩
    · intro key hkey hmode hmem
      exact of_decide_eq_true (List.mem_filter.1 (TagSet.mem_ofList.1 hmem)).2 hmode

/-- A key that is required first and excluded later takes no part in what is required. -/
theorem later_groups_win_over_required_key :
    let words := ["a", "b"] ++ ["c"] ++ ["a"]
    let text := "scope.hasAll([\"b\"]) && scope.hasAny([\"c\"]) && !scope.has(\"a\")"
    words ≠ [] ∧ Quotable words ∧ byteSize text.toList ≤ Limits.largest ∧
      ∃ rule, Rule.parse .unbounded text = .ok rule ∧ rule.holds (.ofList ["b", "c"]) = true ∧
        rule.holds (.ofList ["b", "c", "a"]) = false := by
  intro words text
  have hne : words ≠ [] := List.cons_ne_nil _ _
  have hkeys : Quotable words := by decide +kernel
  have hfits : byteSize text.toList ≤ Limits.largest := by decide +kernel
  have htext : Selection.expression
      (words.eraseDups.map fun key => ⟨key, Selection.modeByGroup ["c"] ["a"] key⟩) = text := by
    decide +kernel
  obtain ⟨-, -, -, -, hrule⟩ :=
    later_groups_win .standard (fun _ => .error .notFound) ["a", "b"] ["c"] ["a"] ⟨"", []⟩
  rw [htext] at hrule
  obtain ⟨rule, hparse, hholds, hwanted⟩ := hrule hne hkeys hfits
  refine ⟨hne, hkeys, hfits, rule, hparse, hwanted, ?_⟩
  rw [Bool.eq_false_iff, ne_eq, hholds]
  rintro ⟨-, -, hnone⟩
  exact hnone "a" (by decide) (by decide) (TagSet.mem_ofList.2 (by decide))

/-- A key that is required first and excluded later is excluded, and warned about once. -/
example :
    let files : Files := fun _ => .error .notFound
    let words := ["build", "--all", "a", "--exclude", "a", "--any", "c", "--all", "b"]
    Outcome.ofWords (fun _ => none) files words =
      .ran ⟨"scope.hasAll([\"b\"]) && scope.hasAny([\"c\"]) && !scope.has(\"a\")\n",
        [selectedAgain ⟨"a", .exclude⟩ .mustHaveAll]⟩ none := by decide +kernel

end CommandLine

end TagRules
