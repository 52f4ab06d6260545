import Mathlib.Algebra.GroupWithZero.Nat
import TagRules.Proofs.Counters

/-!
The ranking of keys as a whole. Every key in use is listed once, with the number of activities
that have it. Greater counts come first, and among equal counts the key that occurs first. No
other list is like that, and its counts add up to the keys that the activities have. Counting by
an index leads to the same list.
-/

namespace TagRules

/-- A set of keys has as many keys as the list that it is made of, repeats left out. -/
theorem TagSet.size_ofList (keys : List String) : (ofList keys).size = keys.eraseDups.length := by
  have hperm : (ofList keys).keys.Perm keys.eraseDups := by
    rw [List.perm_ext_iff_of_nodup (ofList keys).nodup (nodup_eraseDups keys)]
    intro key
    rw [← mem_def, mem_ofList, List.mem_eraseDups]
  exact hperm.length_eq

namespace Activity

variable {activities : List Activity} {ranking others : List (String × Nat)}

theorem sum_raise (counts : List (String × Nat)) (key : String) :
    ((raise counts key).map Prod.snd).sum = (counts.map Prod.snd).sum + 1 := by
  induction counts with
  | nil => rfl
  | cons pair rest ih =>
    obtain ⟨other, count⟩ := pair
    rw [raise]
    split
    · rw [List.map_cons, List.map_cons, List.sum_cons, List.sum_cons, Nat.add_right_comm]
    · rw [List.map_cons, List.map_cons, List.sum_cons, List.sum_cons, ih, Nat.add_assoc]

theorem sum_foldl_raise (counts : List (String × Nat)) (keys : List String) :
    ((keys.foldl raise counts).map Prod.snd).sum = (counts.map Prod.snd).sum + keys.length := by
  induction keys generalizing counts with
  | nil => rfl
  | cons key rest ih =>
    rw [List.foldl_cons, ih, sum_raise, List.length_cons, Nat.add_assoc, Nat.add_comm 1]

/-- An activity adds one for each of its keys. -/
theorem sum_tally (counts : List (String × Nat)) (activity : Activity) :
    ((tally counts activity).map Prod.snd).sum =
      (counts.map Prod.snd).sum + activity.tags.size := by
  rw [tally, sum_foldl_raise, tags, TagSet.size_ofList]

theorem sum_foldl_tally (counts : List (String × Nat)) (activities : List Activity) :
    ((activities.foldl tally counts).map Prod.snd).sum =
      (counts.map Prod.snd).sum + (activities.map (fun activity => activity.tags.size)).sum := by
  induction activities generalizing counts with
  | nil => rfl
  | cons activity rest ih =>
    rw [List.foldl_cons, ih, sum_tally, List.map_cons, List.sum_cons, Nat.add_assoc]

theorem frequency_perm (activities : List Activity) :
    (frequency activities).Perm (activities.foldl tally []) :=
  List.mergeSort_perm _ _

theorem sum_frequency (activities : List Activity) :
    ((frequency activities).map Prod.snd).sum =
      (activities.map (fun activity => activity.tags.size)).sum := by
  rw [((frequency_perm activities).map Prod.snd).sum_nat, sum_foldl_tally, List.map_nil,
    List.sum_nil, Nat.zero_add]

/-- The order in which keys with their counts are sorted. -/
def noRarer (first second : String × Nat) : Bool :=
  decide (second.2 ≤ first.2)

theorem noRarer_iff {first second : String × Nat} :
    noRarer first second = true ↔ second.2 ≤ first.2 :=
  decide_eq_true_iff

theorem noRarer_trans (first second third : String × Nat) (h : noRarer first second = true)
    (hnext : noRarer second third = true) : noRarer first third = true := by
  rw [noRarer_iff] at h hnext ⊢
  exact Nat.le_trans hnext h

theorem noRarer_total (first second : String × Nat) :
    (noRarer first second || noRarer second first) = true := by
  rw [Bool.or_eq_true, noRarer_iff, noRarer_iff]
  exact Nat.le_total second.2 first.2

theorem pairwise_frequency (activities : List Activity) :
    (frequency activities).Pairwise (fun first second => second.2 ≤ first.2) := by
  have hsorted := List.pairwise_mergeSort noRarer_trans noRarer_total (activities.foldl tally [])
  exact hsorted.imp noRarer_iff.1

/-- Sorting leaves keys of one count in the order in which they were counted. -/
theorem filter_frequency (activities : List Activity) (count : Nat) :
    (frequency activities).filter (fun pair => pair.2 = count) =
      (activities.foldl tally []).filter (fun pair => pair.2 = count) := by
  have hcounts : ∀ pair ∈ (activities.foldl tally []).filter (fun pair => pair.2 = count),
      pair.2 = count := by
    intro pair hpair
    exact of_decide_eq_true (List.mem_filter.1 hpair).2
  have hsorted : ((activities.foldl tally []).filter (fun pair => pair.2 = count)).Pairwise
      (fun first second => noRarer first second = true) := by
    apply List.pairwise_of_forall_mem_list
    intro first hfirst second hsecond
    have heq := (hcounts second hsecond).trans (hcounts first hfirst).symm
    exact noRarer_iff.2 (Nat.le_of_eq heq)
  have hkept := List.sublist_mergeSort noRarer_trans noRarer_total hsorted List.filter_sublist
  have hfiltered := hkept.filter (fun pair => pair.2 = count)
  rw [List.filter_filter] at hfiltered
  simp only [Bool.and_self] at hfiltered
  exact (hfiltered.eq_of_length ((frequency_perm activities).filter _).length_eq.symm).symm

theorem pairwise_idxOf_tally (activities : List Activity) :
    (activities.foldl tally []).Pairwise (fun first second =>
      (activities.flatMap tagKeys).idxOf first.1 <
        (activities.flatMap tagKeys).idxOf second.1) := by
  rw [tally_eq, List.pairwise_map]
  exact pairwise_idxOf_eraseDups _

/-- The list ranks the keys of the activities. -/
structure Ranks (activities : List Activity) (ranking : List (String × Nat)) : Prop where
  counted : ∀ key count, (key, count) ∈ ranking ↔
    (∃ activity ∈ activities, key ∈ activity.tagKeys) ∧ count = countKey key activities
  once : (ranking.map Prod.fst).Nodup
  falling : ranking.Pairwise (fun first second => second.2 ≤ first.2)
  /-- Of two keys that are equally frequent the one that occurs first is listed first. -/
  ties : ranking.Pairwise (fun first second => first.2 = second.2 →
    (activities.flatMap tagKeys).idxOf first.1 < (activities.flatMap tagKeys).idxOf second.1)

theorem ranks_frequency (activities : List Activity) : Ranks activities (frequency activities) := by
  refine ⟨?_, nodup_frequency activities, pairwise_frequency activities, ?_⟩
  · intro key count
    rw [mem_frequency, List.mem_flatMap]
  · -- Two keys of one count stand among those of that count, which are in the order of counting.
    rw [List.pairwise_iff_forall_sublist]
    intro first second hsublist hcount
    have hsame := hsublist.filter (fun pair => pair.2 = second.2)
    have hboth : [first, second].filter (fun pair => pair.2 = second.2) = [first, second] := by
      simp [hcount]
    rw [filter_frequency, hboth] at hsame
    exact List.pairwise_iff_forall_sublist.1 (pairwise_idxOf_tally activities)
      (hsame.trans List.filter_sublist)

/-- Activities have one ranking only. -/
theorem Ranks.unique (h : Ranks activities ranking) (hothers : Ranks activities others) :
    ranking = others := by
  have hperm : ranking.Perm others := by
    rw [List.perm_ext_iff_of_nodup h.once.of_map hothers.once.of_map]
    rintro ⟨key, count⟩
    rw [h.counted, hothers.counted]
  have hstrict : ∀ {ranking}, Ranks activities ranking → ranking.Pairwise (fun first second =>
      second.2 < first.2 ∨ (activities.flatMap tagKeys).idxOf first.1 <
        (activities.flatMap tagKeys).idxOf second.1 ∧ first.2 = second.2) := by
    intro ranking hranks
    apply (hranks.falling.and hranks.ties).imp
    rintro first second ⟨hle, hties⟩
    rcases Nat.lt_or_eq_of_le hle with hlt | heq
    · exact Or.inl hlt
    · exact Or.inr ⟨hties heq.symm, heq.symm⟩
  apply hperm.eq_of_pairwise _ (hstrict h) (hstrict hothers)
  intro first second _ _ hbefore hbehind
  omega

/-- The frequencies are the ranking of the keys, to which there is no other, and counting by an
index gives them too. Each count is positive, and together they are the sizes of the tag sets
of all activities. -/
theorem ranks_iff_eq_frequency (activities : List Activity) :
    (∀ ranking, Ranks activities ranking ↔ ranking = frequency activities) ∧
    Counters.ranked activities = frequency activities ∧
    0 ∉ (frequency activities).map Prod.snd ∧
    ((frequency activities).map Prod.snd).sum =
      (activities.map (fun activity => activity.tags.size)).sum := by
  refine ⟨?_, Counters.ranked_eq_frequency activities, ?_, sum_frequency activities⟩
  · intro ranking
    constructor
    · intro hranks
      exact hranks.unique (ranks_frequency activities)
    · rintro rfl
      exact ranks_frequency activities
  · intro hzero
    obtain ⟨⟨key, count⟩, hlisted, hcount⟩ := List.mem_map.1 hzero
    obtain ⟨hmem, heq⟩ := mem_frequency.1 hlisted
    exact countKey_eq_zero_iff.1 (heq.symm.trans hcount) hmem

end Activity

end TagRules
