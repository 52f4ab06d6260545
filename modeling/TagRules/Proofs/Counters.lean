import TagRules.Proofs.Tallies

/-!
Counting by an index. The counters stand in the order in which their keys first occur, and an
index leads from each key to the place of its counter. Raising the counter at the place of a
key comes to the same as searching for the key, and passing over the keys that an activity has
shown before comes to the same as leaving out its repeats, so that the ranking of keys is the
same as well.
-/

namespace TagRules

/-- Keys with their counts, and the place of each key among them. -/
structure Counters where
  places : Std.HashMap String Nat
  counts : List (String × Nat)

namespace Counters

def empty : Counters :=
  ⟨∅, []⟩

/-- The place of a key. A key without a place gets the one behind the others, and counts from
nought. -/
def enter (counters : Counters) (key : String) : Nat × Counters :=
  match counters.places[key]? with
  | some place => (place, counters)
  | none =>
    let place := counters.counts.length
    (place, ⟨counters.places.insert key place, counters.counts ++ [(key, 0)]⟩)

def raiseAt (counters : Counters) (place : Nat) : Counters :=
  ⟨counters.places, counters.counts.modify place (fun (key, count) => (key, count + 1))⟩

def raise (counters : Counters) (key : String) : Counters :=
  let (place, counters) := counters.enter key
  counters.raiseAt place

/-- Raises the counters of the keys, those left out that have been seen. -/
def raiseUnseen (counters : Counters) (seen : List String) : List String → Counters
  | [] => counters
  | key :: rest =>
    if key ∈ seen then counters.raiseUnseen seen rest
    else (counters.raise key).raiseUnseen (seen ++ [key]) rest

def tally (counters : Counters) (activity : Activity) : Counters :=
  counters.raiseUnseen [] activity.tagKeys

/-- The keys in use and how many activities have each, the most frequent first. -/
def ranked (activities : List Activity) : List (String × Nat) :=
  (activities.foldl tally empty).counts.mergeSort
    (fun first second => decide (second.2 ≤ first.2))

end Counters

namespace Activity

variable {counts : List (String × Nat)} {key : String} {place : Nat}

theorem map_fst_raise (counts : List (String × Nat)) (key : String) :
    (raise counts key).map Prod.fst = withKey (counts.map Prod.fst) key := by
  induction counts with
  | nil => rfl
  | cons pair rest ih =>
    obtain ⟨other, count⟩ := pair
    rw [raise, withKey]
    split
    · next heq =>
      rw [List.map_cons, List.map_cons, if_pos (List.mem_cons.2 (Or.inl heq.symm))]
    · next hne =>
      rw [List.map_cons, ih, withKey]
      simp only [List.map_cons, List.mem_cons, Ne.symm hne, false_or]
      split
      · rfl
      · rfl

/-- Where each key has one count, the count at the place of the key is the one that is raised. -/
theorem raise_eq_modify (hnodup : (counts.map Prod.fst).Nodup)
    (hplace : (counts.map Prod.fst)[place]? = some key) :
    raise counts key = counts.modify place (fun (key, count) => (key, count + 1)) := by
  induction counts generalizing place with
  | nil => cases hplace
  | cons pair rest ih =>
    obtain ⟨other, count⟩ := pair
    rw [List.map_cons, List.nodup_cons] at hnodup
    rw [List.map_cons] at hplace
    cases place with
    | zero =>
      obtain rfl := Option.some.inj hplace
      rw [raise, if_pos rfl, List.modify_zero_cons]
    | succ place =>
      have hrest : (rest.map Prod.fst)[place]? = some key := hplace
      have hne : other ≠ key := fun heq => hnodup.1 (heq ▸ List.mem_of_getElem? hrest)
      rw [raise, if_neg hne, ih hnodup.2 hrest, List.modify_succ_cons]

end Activity

namespace Counters

variable {counters : Counters} {counts : List (String × Nat)} {key : String}

/-- The counters have these counts, and the index leads from each key to its own. -/
structure Tracks (counters : Counters) (counts : List (String × Nat)) : Prop where
  counts_eq : counters.counts = counts
  indexes : Indexes counters.places (counts.map Prod.fst)

theorem Tracks.empty : Counters.empty.Tracks [] :=
  ⟨rfl, Indexes.empty⟩

theorem Tracks.raise (h : counters.Tracks counts) (key : String) :
    (counters.raise key).Tracks (Activity.raise counts key) := by
  obtain ⟨rfl, hindexes⟩ := h
  rw [Counters.raise, enter]
  cases hplace : counters.places[key]? with
  | some place =>
    have hstands := (hindexes key place).1 hplace
    refine ⟨(Activity.raise_eq_modify hindexes.nodup hstands).symm, ?_⟩
    rw [Activity.map_fst_raise, withKey_of_mem (List.mem_of_getElem? hstands)]
    exact hindexes
  | none =>
    have hnew : key ∉ counters.counts.map Prod.fst := by
      rw [← hindexes.mem_iff, Std.HashMap.mem_iff_isSome_getElem?, hplace]
      exact Bool.false_ne_true
    constructor
    · rw [Activity.raise_of_not_mem hnew]
      exact List.modifyTailIdx_add _ 0 counters.counts [(key, 0)]
    · rw [Activity.map_fst_raise, withKey, if_neg hnew]
      have hgrown := hindexes.concat hnew
      rwa [List.length_map] at hgrown

theorem Tracks.foldl_raise (h : counters.Tracks counts) (keys : List String) :
    (keys.foldl Counters.raise counters).Tracks (keys.foldl Activity.raise counts) := by
  induction keys generalizing counters counts with
  | nil => exact h
  | cons key rest ih => exact ih (h.raise key)

theorem raiseUnseen_eq_foldl (counters : Counters) (seen keys : List String) :
    counters.raiseUnseen seen keys =
      (keys.filter (fun key => key ∉ seen)).eraseDups.foldl raise counters := by
  induction keys generalizing counters seen with
  | nil => rfl
  | cons key rest ih =>
    rw [raiseUnseen]
    split
    · next hseen =>
      rw [ih, List.filter_cons_of_neg (by simpa using hseen)]
    · next hnew =>
      have hrest : rest.filter (fun other => other ∉ seen ++ [key]) =
          (rest.filter (fun other => other ∉ seen)).filter (fun other => !other == key) := by
        rw [List.filter_filter]
        apply List.filter_congr
        intro other _
        rw [Bool.eq_iff_iff]
        simp [and_comm]
      rw [ih, List.filter_cons_of_pos (by simpa using hnew), List.eraseDups_cons, List.foldl_cons,
        hrest]

theorem Tracks.tally (h : counters.Tracks counts) (activity : Activity) :
    (counters.tally activity).Tracks (Activity.tally counts activity) := by
  rw [Counters.tally, raiseUnseen_eq_foldl, Activity.tally]
  simp only [List.not_mem_nil, not_false_eq_true, decide_true, List.filter_true]
  exact h.foldl_raise _

theorem Tracks.foldl_tally (h : counters.Tracks counts) (activities : List Activity) :
    (activities.foldl Counters.tally counters).Tracks (activities.foldl Activity.tally counts) := by
  induction activities generalizing counters counts with
  | nil => exact h
  | cons activity rest ih => exact ih (h.tally activity)

/-- Counting by the index and counting by search rank the keys alike. -/
theorem ranked_eq_frequency (activities : List Activity) :
    ranked activities = Activity.frequency activities := by
  rw [ranked, (Tracks.empty.foldl_tally activities).counts_eq, Activity.frequency]

end Counters

end TagRules
