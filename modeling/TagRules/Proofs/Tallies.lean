import TagRules.Activity
import TagRules.Proofs.Canonical
import TagRules.Proofs.DistinctKeys

/-!
What is counted about activities. Counting them one after the other gives each key the number
of activities that have it, and a rule that asks for a key, or for any of the keys of a kind,
matches exactly the activities that are counted under the key, or under the kind.
-/

namespace TagRules

open Text (byteSize)

namespace Activity

variable {key : String} {keys : List String} {count : String → Nat} {counts : List (String × Nat)}

/-- How many activities have a key. A key that an activity lists twice counts once. -/
def countKey (key : String) (activities : List Activity) : Nat :=
  activities.countP (fun activity => decide (key ∈ activity.tagKeys))

/-- The counts are those of the function, under the keys in their order, and no other key has
been counted. -/
structure Counts (keys : List String) (count : String → Nat) (counts : List (String × Nat)) :
    Prop where
  eq : counts = keys.map (fun key => (key, count key))
  nodup : keys.Nodup
  zero : ∀ key ∉ keys, count key = 0

/-- One more for a key does not show among other keys. -/
theorem map_add_of_not_mem (h : key ∉ keys) :
    keys.map (fun other => (other, count other + if other = key then 1 else 0)) =
      keys.map (fun other => (other, count other)) := by
  apply List.map_congr_left
  intro other hother
  rw [if_neg (ne_of_mem_of_not_mem hother h), Nat.add_zero]

theorem raise_of_not_mem (h : key ∉ counts.map Prod.fst) :
    raise counts key = counts ++ [(key, 1)] := by
  induction counts with
  | nil => rfl
  | cons pair rest ih =>
    obtain ⟨other, count⟩ := pair
    rw [List.map_cons, List.mem_cons, not_or] at h
    rw [raise, if_neg (Ne.symm h.1), ih h.2, List.cons_append]

theorem raise_map_of_mem (hnodup : keys.Nodup) (h : key ∈ keys) :
    raise (keys.map (fun other => (other, count other))) key =
      keys.map (fun other => (other, count other + if other = key then 1 else 0)) := by
  induction keys with
  | nil => cases h
  | cons first rest ih =>
    rw [List.nodup_cons] at hnodup
    rw [List.map_cons, List.map_cons, raise]
    by_cases heq : first = key
    · rw [if_pos heq, if_pos heq, map_add_of_not_mem (heq ▸ hnodup.1)]
    · rw [if_neg heq, if_neg heq, Nat.add_zero,
        ih hnodup.2 ((List.mem_cons.1 h).resolve_left (Ne.symm heq))]

namespace Counts

theorem nil : Counts [] (fun _ => 0) [] :=
  ⟨rfl, List.nodup_nil, fun _ _ => rfl⟩

theorem raise (h : Counts keys count counts) (key : String) :
    Counts (withKey keys key) (fun other => count other + if other = key then 1 else 0)
      (raise counts key) := by
  refine ⟨?_, nodup_withKey h.nodup, ?_⟩
  · rw [h.eq, withKey]
    split
    · next hmem => exact raise_map_of_mem h.nodup hmem
    · next hnot =>
      have hkeys : (keys.map (fun key => (key, count key))).map Prod.fst = keys := by
        rw [List.map_map]
        exact List.map_id keys
      rw [raise_of_not_mem (hkeys.symm ▸ hnot), List.map_append, map_add_of_not_mem hnot,
        List.map_singleton, h.zero key hnot, if_pos rfl]
  · intro other hother
    rw [mem_withKey, not_or] at hother
    rw [h.zero other hother.1, if_neg hother.2]

theorem foldl_raise (h : Counts keys count counts) (words : List String) :
    Counts (words.foldl withKey keys) (fun key => count key + words.count key)
      (words.foldl Activity.raise counts) := by
  induction words generalizing keys count counts with
  | nil => exact h
  | cons word rest ih =>
    have hcount (key : String) : count key + (word :: rest).count key =
        (count key + if key = word then 1 else 0) + rest.count key := by
      rw [List.count_cons, Nat.add_assoc, Nat.add_comm (rest.count key)]
      simp only [beq_iff_eq, @eq_comm _ word key]
    simp only [hcount]
    exact ih (h.raise word)

theorem tally (h : Counts keys count counts) (activity : Activity) :
    Counts (activity.tagKeys.foldl withKey keys)
      (fun key => count key + if key ∈ activity.tagKeys then 1 else 0) (tally counts activity) := by
  have htally := h.foldl_raise activity.tagKeys.eraseDups
  simp only [(nodup_eraseDups _).count, List.mem_eraseDups] at htally
  rwa [foldl_withKey_eraseDups] at htally

theorem foldl_tally (h : Counts keys count counts) (activities : List Activity) :
    Counts ((activities.flatMap tagKeys).foldl withKey keys)
      (fun key => count key + countKey key activities)
      (activities.foldl Activity.tally counts) := by
  induction activities generalizing keys count counts with
  | nil => exact h
  | cons activity rest ih =>
    have hcount (key : String) : count key + countKey key (activity :: rest) =
        (count key + if key ∈ activity.tagKeys then 1 else 0) + countKey key rest := by
      rw [countKey, List.countP_cons, Nat.add_assoc, Nat.add_comm (List.countP _ rest)]
      simp [countKey]
    simp only [hcount]
    rw [List.flatMap_cons, List.foldl_append]
    exact ih (h.tally activity)

end Counts

/-- The counts before they are ranked: each key in use, in the order in which the keys first
occur, with the number of activities that have it. -/
theorem tally_eq (activities : List Activity) :
    activities.foldl tally [] =
      (activities.flatMap tagKeys).eraseDups.map (fun key => (key, countKey key activities)) := by
  have h := (Counts.nil.foldl_tally activities).eq
  simp only [Nat.zero_add] at h
  rwa [foldl_withKey_nil] at h

theorem mem_frequency {activities : List Activity} {count : Nat} :
    (key, count) ∈ frequency activities ↔
      key ∈ activities.flatMap tagKeys ∧ count = countKey key activities := by
  rw [frequency, List.mem_mergeSort, tally_eq, List.mem_map]
  constructor
  · rintro ⟨other, hmem, heq⟩
    obtain ⟨rfl, rfl⟩ := Prod.mk.inj heq
    exact ⟨List.mem_eraseDups.1 hmem, rfl⟩
  · rintro ⟨hmem, rfl⟩
    exact ⟨key, List.mem_eraseDups.2 hmem, rfl⟩

/-- No key is listed twice. -/
theorem nodup_frequency (activities : List Activity) :
    ((frequency activities).map Prod.fst).Nodup := by
  have hperm := (List.mergeSort_perm (activities.foldl tally [])
    (fun first second => decide (second.2 ≤ first.2))).map Prod.fst
  refine hperm.nodup_iff.2 ?_
  rw [tally_eq, List.map_map]
  exact (List.map_id (activities.flatMap tagKeys).eraseDups).symm ▸ nodup_eraseDups _

theorem countKey_eq_zero_iff {activities : List Activity} :
    countKey key activities = 0 ↔ key ∉ activities.flatMap tagKeys := by
  rw [countKey, List.countP_eq_zero, List.mem_flatMap]
  simp

theorem lookup_frequency (key : String) (activities : List Activity) :
    ((frequency activities).lookup key).getD 0 = countKey key activities := by
  cases hlookup : (frequency activities).lookup key with
  | some count =>
    exact (mem_frequency.1 ((lookup_eq_some_iff (nodup_frequency activities)).1 hlookup)).2
  | none =>
    rw [Option.getD_none, eq_comm, countKey_eq_zero_iff]
    intro hmem
    have hlisted := (lookup_eq_some_iff (nodup_frequency activities)).2
      (mem_frequency.2 ⟨hmem, rfl⟩)
    rw [hlookup] at hlisted
    cases hlisted

variable {catalog : Catalog} {kind : TagKind}

/-- An activity is concerned with a kind where it has a key that the catalog files under it. -/
theorem concerns_iff {activity : Activity} : concerns catalog kind activity = true ↔
    ∃ key ∈ (catalog.ofKind kind).map CatalogEntry.key, key ∈ activity.tagKeys := by
  rw [concerns, List.any_eq_true]
  constructor
  · rintro ⟨key, hkey, hkind⟩
    split at hkind
    · next entry hget =>
      obtain ⟨hmem, rfl⟩ := Catalog.get?_eq_some_iff.1 hget
      exact ⟨entry.key, List.mem_map_of_mem (List.mem_filter.2 ⟨hmem, hkind⟩), hkey⟩
    · cases hkind
  · rintro ⟨key, hlisted, hkey⟩
    obtain ⟨entry, hentry, rfl⟩ := List.mem_map.1 hlisted
    obtain ⟨hmem, hkind⟩ := List.mem_filter.1 hentry
    refine ⟨entry.key, hkey, ?_⟩
    rw [Catalog.get?_eq_some_iff.2 ⟨hmem, rfl⟩]
    exact hkind

theorem nodup_distribution (catalog : Catalog) (activities : List Activity) :
    ((distribution catalog activities).map Prod.fst).Nodup := by
  rw [distribution, List.map_map]
  exact (List.map_id TagKind.all).symm ▸ by decide

theorem mem_distribution {activities : List Activity} {count : Nat} :
    (kind, count) ∈ distribution catalog activities ↔
      count = activities.countP (concerns catalog kind) := by
  rw [distribution, List.mem_map]
  constructor
  · rintro ⟨other, -, heq⟩
    obtain ⟨rfl, rfl⟩ := Prod.mk.inj heq
    rfl
  · rintro rfl
    exact ⟨kind, TagKind.mem_all kind, rfl⟩

end Activity

theorem Rule.parse_test {test : Atom} (hkeys : Quotable test.keys)
    (hfits : byteSize (toString test).toList ≤ Limits.largest) :
    parse .unbounded (toString test) = .ok ⟨toString test, .atom test⟩ := by
  have hquotable : Quotable (Expr.atom test).keys := by
    rw [Expr.keys, Expr.atoms, List.flatMap_singleton]
    exact hkeys
  have htext : (toString test).toList = (Expr.atom test).text := String.toList_ofList
  rw [htext] at hfits
  have hdepth : (Expr.atom test).depth ≤ Limits.unbounded.maxDepth := by
    rw [Expr.depth]
    exact Nat.zero_le _
  have hparse : parse .unbounded (toString (Expr.atom test)) =
      .ok ⟨toString (Expr.atom test), (Expr.atom test).flatten⟩ :=
    parse_toString (.atom test) hquotable hfits hdepth
  rw [Expr.flatten] at hparse
  exact hparse

theorem Atom.toString_has (key : String) :
    toString (has key) = "scope.has(\"" ++ key ++ "\")" := by
  have htext : (toString (has key)).toList = (has key).text := String.toList_ofList
  have hopen : "scope.has(\"".toList = "scope.has(".toList ++ ['"'] := rfl
  have hclose : "\")".toList = ['"', ')'] := rfl
  rw [← String.toList_inj, htext, String.toList_append, String.toList_append, hopen, hclose]
  unfold text quoted
  simp only [List.append_assoc, List.cons_append, List.nil_append]

theorem Atom.toString_hasAny (keys : List String) :
    toString (hasAny keys) =
      "scope.hasAny([" ++ ",".intercalate (keys.map ("\"" ++ · ++ "\"")) ++ "])" := by
  have hquoted : String.toList ∘ ("\"" ++ · ++ "\"") = quoted := by
    funext key
    rw [Function.comp_apply, String.toList_append, String.toList_append]
    rfl
  rw [← String.toList_inj, String.toList_append, String.toList_append, String.toList_intercalate,
    List.map_map, hquoted]
  exact String.toList_ofList

namespace Activity

variable {activities : List Activity}

theorem countMatching_has (key source : String) (activities : List Activity) :
    countMatching ⟨source, .atom (.has key)⟩ activities = countKey key activities := by
  apply List.countP_congr
  intro activity _
  rw [Rule.holds, Expr.holds_atom, Atom.holds, TagSet.contains_iff, tags, TagSet.mem_ofList,
    decide_eq_true_eq]

theorem countMatching_hasAny (catalog : Catalog) (kind : TagKind) (source : String)
    (activities : List Activity) :
    countMatching ⟨source, .atom (.hasAny ((catalog.ofKind kind).map CatalogEntry.key))⟩
        activities =
      activities.countP (concerns catalog kind) := by
  apply List.countP_congr
  intro activity _
  rw [Rule.holds, Expr.holds_atom, Atom.holds, List.any_eq_true, concerns_iff]
  simp only [TagSet.contains_iff, tags, TagSet.mem_ofList]

/-- The count of a key is that of the rule that asks for it, and the count of a kind that of the
rule that asks for any of its keys. The largest bound is one that no text of this world exceeds. -/
theorem counts_are_matches (activities : List Activity) (catalog : Catalog) :
    (∀ key : String, '"' ∉ key.toList →
      let text := "scope.has(\"" ++ key ++ "\")"
      byteSize text.toList ≤ Limits.largest →
      ∃ rule, Rule.parse .unbounded text = .ok rule ∧
        ((frequency activities).lookup key).getD 0 = countMatching rule activities ∧
        ∀ count, (key, count) ∈ frequency activities → count = countMatching rule activities) ∧
    ∀ kind,
      let keys := (catalog.ofKind kind).map CatalogEntry.key
      let text := "scope.hasAny([" ++ ",".intercalate (keys.map ("\"" ++ · ++ "\"")) ++ "])"
      Quotable keys → byteSize text.toList ≤ Limits.largest →
      ∃ rule, Rule.parse .unbounded text = .ok rule ∧
        (distribution catalog activities).lookup kind = some (countMatching rule activities) ∧
        (∀ count, (kind, count) ∈ distribution catalog activities →
          count = countMatching rule activities) ∧
        (keys = [] → text = "scope.hasAny([])" ∧ countMatching rule activities = 0) := by
  constructor
  · intro key hkey text hfits
    have htext : text = toString (Atom.has key) := (Atom.toString_has key).symm
    have hquotable : Quotable (Atom.has key).keys := List.forall_mem_singleton.2 hkey
    rw [htext] at hfits ⊢
    refine ⟨_, Rule.parse_test hquotable hfits, ?_, ?_⟩
    · rw [countMatching_has, lookup_frequency]
    · intro count hcount
      rw [countMatching_has]
      exact (mem_frequency.1 hcount).2
  · intro kind keys text hkeys hfits
    have htext : text = toString (Atom.hasAny keys) := (Atom.toString_hasAny keys).symm
    have hcount : countMatching ⟨toString (Atom.hasAny keys), .atom (.hasAny keys)⟩ activities =
        activities.countP (concerns catalog kind) :=
      countMatching_hasAny catalog kind _ activities
    rw [htext] at hfits ⊢
    refine ⟨_, Rule.parse_test hkeys hfits, ?_, ?_, ?_⟩
    · rw [lookup_eq_some_iff (nodup_distribution catalog activities), mem_distribution, hcount]
    · intro count hmem
      rw [hcount, mem_distribution.1 hmem]
    · intro hnil
      rw [hnil]
      exact ⟨rfl, List.countP_eq_zero.2 (fun _ _ => Bool.false_ne_true)⟩

/-- A key that an activity lists twice counts once, and so does a kind of which it has two tags. -/
theorem counts_are_matches_despite_repeats :
    let activities : List Activity := [plain "x" ["a", "b", "a"], plain "y" ["c", "a"]]
    let catalog : Catalog := ⟨[.plain "a" "A" .data, .plain "b" "B" .data], by decide⟩
    '"' ∉ "a".toList ∧ byteSize "scope.has(\"a\")".toList ≤ Limits.largest ∧
      (∃ rule, Rule.parse .unbounded "scope.has(\"a\")" = .ok rule ∧
        countMatching rule activities = 2) ∧
      Quotable ((catalog.ofKind .data).map CatalogEntry.key) ∧
      byteSize "scope.hasAny([\"a\",\"b\"])".toList ≤ Limits.largest ∧
      ∃ rule, Rule.parse .unbounded "scope.hasAny([\"a\",\"b\"])" = .ok rule ∧
        countMatching rule activities = 2 := by
  intro activities catalog
  have hkey : '"' ∉ "a".toList := by decide
  have hfits : byteSize "scope.has(\"a\")".toList ≤ Limits.largest := by decide +kernel
  have hkeys : Quotable ((catalog.ofKind .data).map CatalogEntry.key) := by decide +kernel
  have hlength : byteSize "scope.hasAny([\"a\",\"b\"])".toList ≤ Limits.largest := by
    decide +kernel
  obtain ⟨hfrequency, hdistribution⟩ := counts_are_matches activities catalog
  obtain ⟨test, hparse, hcount, -⟩ := hfrequency "a" hkey hfits
  obtain ⟨either, hreads, hshare, -⟩ := hdistribution .data hkeys hlength
  refine ⟨hkey, hfits, ⟨test, hparse, ?_⟩, hkeys, hlength, either, hreads, ?_⟩
  · rw [← hcount, lookup_frequency]
    decide +kernel
  · have hlisted : (distribution catalog activities).lookup .data = some 2 := by decide +kernel
    exact Option.some.inj (hshare.symm.trans hlisted)

end Activity

end TagRules
