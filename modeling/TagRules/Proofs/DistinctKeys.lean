import Mathlib.Data.List.Induction
import Mathlib.Data.List.Nodup
import TagRules.Catalog

/-!
Lists in which no key comes twice. Adding each key that is not there yet, one after the other,
leads to the same list as dropping all repeats at once. Where each key belongs to one item
only, a search for the key finds that item, and an index that grows with the keys leads from
each key to its place.
-/

namespace TagRules

section FirstOccurrences

variable {key other : String} {keys : List String}

/-- The keys with one more at the end, unless it is among them. -/
def withKey (keys : List String) (key : String) : List String :=
  if key ∈ keys then keys else keys ++ [key]

theorem withKey_of_mem (h : key ∈ keys) : withKey keys key = keys :=
  if_pos h

theorem mem_withKey : other ∈ withKey keys key ↔ other ∈ keys ∨ other = key := by
  unfold withKey
  split
  · next hmem =>
    constructor
    · exact Or.inl
    · rintro (hother | rfl)
      · exact hother
      · exact hmem
  · rw [List.mem_append, List.mem_singleton]

theorem nodup_withKey (h : keys.Nodup) : (withKey keys key).Nodup := by
  unfold withKey
  split
  · exact h
  · next hnot =>
    rw [← List.concat_eq_append]
    exact h.concat hnot

theorem mem_foldl_withKey {words : List String} :
    key ∈ words.foldl withKey keys ↔ key ∈ keys ∨ key ∈ words := by
  induction words generalizing keys with
  | nil => simp
  | cons word rest ih => rw [List.foldl_cons, ih, mem_withKey, List.mem_cons, or_assoc]

theorem eraseDups_concat (words : List String) (word : String) :
    (words ++ [word]).eraseDups = withKey words.eraseDups word := by
  rw [List.eraseDups_append, withKey]
  by_cases hmem : word ∈ words
  · simp [List.removeAll, hmem]
  · simp [List.removeAll, hmem, List.eraseDups_cons]

theorem foldl_withKey_nil (words : List String) : words.foldl withKey [] = words.eraseDups := by
  induction words using List.reverseRecOn with
  | nil => rfl
  | append_singleton words word ih =>
    rw [List.foldl_append, ih, eraseDups_concat, List.foldl_cons, List.foldl_nil]

theorem nodup_eraseDups (words : List String) : words.eraseDups.Nodup := by
  induction words using List.reverseRecOn with
  | nil => exact List.nodup_nil
  | append_singleton words word ih =>
    rw [eraseDups_concat]
    exact nodup_withKey ih

/-- Without repeats the keys stand in the order in which they first occur. -/
theorem pairwise_idxOf_eraseDups (words : List String) :
    words.eraseDups.Pairwise (fun first second => words.idxOf first < words.idxOf second) := by
  induction words using List.reverseRecOn with
  | nil => exact .nil
  | append_singleton words word ih =>
    have hkept : ∀ key ∈ words.eraseDups, (words ++ [word]).idxOf key = words.idxOf key := by
      intro key hkey
      exact List.idxOf_append_of_mem (List.mem_eraseDups.1 hkey)
    have hfront : words.eraseDups.Pairwise
        (fun first second => (words ++ [word]).idxOf first < (words ++ [word]).idxOf second) := by
      apply ih.imp_of_mem
      intro first second hfirst hsecond hlt
      rwa [hkept first hfirst, hkept second hsecond]
    rw [eraseDups_concat, withKey]
    split
    · exact hfront
    · next hnew =>
      refine List.pairwise_append.2 ⟨hfront, List.pairwise_singleton _ _, ?_⟩
      intro first hfirst last hlast
      rw [List.mem_singleton] at hlast
      subst hlast
      have hmem := List.mem_eraseDups.1 hfirst
      have hnot : last ∉ words := fun h => hnew (List.mem_eraseDups.2 h)
      rw [hkept first hfirst, List.idxOf_append_of_notMem hnot, List.idxOf_cons_self]
      exact List.idxOf_lt_length_of_mem hmem

/-- A key that is added twice is added once. -/
theorem foldl_withKey_eraseDups (words keys : List String) :
    words.eraseDups.foldl withKey keys = words.foldl withKey keys := by
  induction words using List.reverseRecOn with
  | nil => rfl
  | append_singleton words word ih =>
    rw [eraseDups_concat, List.foldl_append, ← ih, List.foldl_cons, List.foldl_nil]
    by_cases hmem : word ∈ words.eraseDups
    · rw [withKey_of_mem hmem, withKey_of_mem (mem_foldl_withKey.2 (.inr hmem))]
    · rw [withKey, if_neg hmem, List.foldl_append, List.foldl_cons, List.foldl_nil]

end FirstOccurrences

section Search

variable {α β : Type} [DecidableEq β] {keyOf : α → β} {items : List α} {item : α}

theorem find?_key_eq_some (hnodup : (items.map keyOf).Nodup) (hmem : item ∈ items) :
    items.find? (fun other => keyOf other = keyOf item) = some item := by
  induction items with
  | nil => cases hmem
  | cons first rest ih =>
    rw [List.map_cons, List.nodup_cons] at hnodup
    obtain rfl | hmem := List.mem_cons.1 hmem
    · exact List.find?_cons_of_pos (decide_eq_true rfl)
    · have hne : keyOf first ≠ keyOf item := by
        intro heq
        exact hnodup.1 (heq ▸ List.mem_map_of_mem hmem)
      rw [List.find?_cons_of_neg (by simpa using hne), ih hnodup.2 hmem]

theorem lookup_eq_some_iff {pairs : List (β × α)} (hnodup : (pairs.map Prod.fst).Nodup) {key : β}
    {value : α} : pairs.lookup key = some value ↔ (key, value) ∈ pairs := by
  induction pairs with
  | nil => simp
  | cons pair rest ih =>
    obtain ⟨first, found⟩ := pair
    rw [List.map_cons, List.nodup_cons] at hnodup
    rw [List.mem_cons, Prod.mk.injEq]
    obtain rfl | hne := eq_or_ne key first
    · rw [List.lookup_cons_self]
      constructor
      · intro h
        exact .inl ⟨rfl, (Option.some.inj h).symm⟩
      · rintro (⟨-, rfl⟩ | hmem)
        · rfl
        · exact absurd (List.mem_map_of_mem (f := Prod.fst) hmem) hnodup.1
    · rw [List.lookup_cons, beq_false_of_ne hne]
      exact (ih hnodup.2).trans (by simp [hne])

end Search

section Places

variable {places : Std.HashMap String Nat} {keys : List String} {key : String}

/-- Each key leads to the places where it stands, and to no others. -/
def Indexes (places : Std.HashMap String Nat) (keys : List String) : Prop :=
  ∀ (key : String) (place : Nat), places[key]? = some place ↔ keys[place]? = some key

theorem Indexes.empty : Indexes ∅ [] := by
  intro key place
  simp

theorem Indexes.mem_iff (h : Indexes places keys) : key ∈ places ↔ key ∈ keys := by
  rw [Std.HashMap.mem_iff_isSome_getElem?, Option.isSome_iff_exists, List.mem_iff_getElem?]
  exact exists_congr (h key)

theorem Indexes.nodup (h : Indexes places keys) : keys.Nodup := by
  rw [List.nodup_iff_getElem?_ne_getElem?]
  intro first second hlt hsecond heq
  have hlast := (h keys[second] second).2 (List.getElem?_eq_getElem hsecond)
  have hfront := (h keys[second] first).2 (heq.trans (List.getElem?_eq_getElem hsecond))
  rw [hlast, Option.some.injEq] at hfront
  exact Nat.ne_of_gt hlt hfront

theorem getElem?_concat_eq_some_iff {α : Type} {items : List α} {item found : α} {place : Nat} :
    (items ++ [item])[place]? = some found ↔
      items[place]? = some found ∨ place = items.length ∧ item = found := by
  rw [List.getElem?_append]
  split
  · next hlt => simp [Nat.ne_of_lt hlt]
  · next hge =>
    rw [List.getElem?_eq_none (Nat.not_lt.1 hge), List.getElem?_singleton]
    split
    · next hzero =>
      have heq : place = items.length := by omega
      simp [heq]
    · next hpos =>
      have hne : place ≠ items.length := by omega
      simp [hne]

/-- A new key is entered with the place behind the others. -/
theorem Indexes.concat (h : Indexes places keys) (hnew : key ∉ keys) :
    Indexes (places.insert key keys.length) (keys ++ [key]) := by
  intro other place
  rw [Std.HashMap.getElem?_insert, getElem?_concat_eq_some_iff]
  split
  · next heq =>
    obtain rfl := beq_iff_eq.1 heq
    rw [Option.some.injEq]
    constructor
    · rintro rfl
      exact Or.inr ⟨rfl, rfl⟩
    · rintro (hfront | ⟨hplace, -⟩)
      · exact absurd (List.mem_of_getElem? hfront) hnew
      · exact hplace.symm
  · next hne =>
    rw [h]
    constructor
    · exact Or.inl
    · rintro (hfront | ⟨-, heq⟩)
      · exact hfront
      · exact absurd (beq_iff_eq.2 heq) hne

end Places

theorem Catalog.firstRepeat?_eq_none {seen keys : List String} (hnodup : keys.Nodup)
    (hseen : ∀ key ∈ keys, key ∉ seen) : firstRepeat? seen keys = none := by
  induction keys generalizing seen with
  | nil => rfl
  | cons key rest ih =>
    obtain ⟨hfirst, hrest⟩ := List.nodup_cons.1 hnodup
    rw [firstRepeat?, if_neg (hseen key List.mem_cons_self)]
    refine ih hrest fun other hother => ?_
    rw [List.mem_cons, not_or]
    exact ⟨fun heq => hfirst (heq ▸ hother), hseen other (List.mem_cons_of_mem _ hother)⟩

theorem Catalog.ofList_entries (catalog : Catalog) : ofList catalog.entries = .ok catalog := by
  have hnone : firstRepeat? [] (catalog.entries.map CatalogEntry.key) = none :=
    firstRepeat?_eq_none catalog.nodup fun _ _ => List.not_mem_nil
  unfold ofList
  split
  · next key hsome => rw [hnone] at hsome; cases hsome
  · rfl

theorem Catalog.get?_eq_some_iff {catalog : Catalog} {key : String} {entry : CatalogEntry} :
    catalog.get? key = some entry ↔ entry ∈ catalog.entries ∧ entry.key = key := by
  rw [get?]
  constructor
  · intro hfound
    exact ⟨List.mem_of_find?_eq_some hfound, by simpa using List.find?_some hfound⟩
  · rintro ⟨hmem, rfl⟩
    exact find?_key_eq_some catalog.nodup hmem

end TagRules
