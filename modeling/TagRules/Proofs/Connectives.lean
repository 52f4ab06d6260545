import TagRules.Activity
import TagRules.Proofs.Recombination

/-!
Rule texts joined to longer rule texts. Every text that is read within a depth has a verdict
on each tag set, and such texts are closed under the connectives: `||` between two texts needs
no more depth than they do, and parentheses and `!` need one level each. The operators of a
joined text may group otherwise than those of its parts, and the verdicts do not show it.
-/

namespace TagRules

open Text (byteSize)

namespace Rule

/-- Two rule texts with `||` between them. -/
def disjoin (first second : String) : String :=
  first ++ " || " ++ second

/-- Two rule texts, each in parentheses, with `&&` between them. -/
def conjoin (first second : String) : String :=
  "(" ++ first ++ ") && (" ++ second ++ ")"

/-- A rule text in parentheses behind a `!`. -/
def deny (source : String) : String :=
  "!(" ++ source ++ ")"

end Rule

/-- The last alternative of a text and the first one of another stay apart where `||` joins them,
so the alternatives of the whole are those of the two. -/
theorem Derives.exists_disjunction {bound : Nat} {phrase other : Phrase}
    (h : Derives .chain phrase) (hother : Derives .chain other) (hdepth : phrase.depth ≤ bound)
    (hdepth' : other.depth ≤ bound) :
    ∃ whole, Derives .chain whole ∧
      whole.text = phrase.text ++ Operator.or.symbol.toList ++ other.text ∧ whole.depth ≤ bound ∧
      ∀ tags, whole.tree.holds tags = (phrase.tree.holds tags || other.tree.holds tags) := by
  obtain ⟨pieces, row, rows, hcut, hreads, htree⟩ := h.read bound
  obtain ⟨pieces', row', rows', hcut', hreads', htree'⟩ := hother.read bound
  have hjoined := (hreads.mono (fun _ _ h => h.mono hdepth)).join_or
    (hreads'.mono (fun _ _ h => h.mono hdepth'))
  obtain ⟨tests, least, hleast, hwhole⟩ :=
    (hjoined.mono (fun _ _ h => h.derivedOperand)).derives
  have htext := (hcut.join (fun c => h.seamless.last_of_getLast?) .or hcut').text_eq
  refine ⟨_, hwhole, htext, hleast, fun tags => ?_⟩
  rw [htree, htree', Expr.holds_ofAlternatives, Expr.holds_ofAlternatives,
    Expr.holds_ofAlternatives, ← List.cons_append, List.any_append]

/-- The text is read within the depth, as a rule with this verdict on each tag set. -/
def Decides (depth : Nat) (source : String) (verdict : TagSet → Bool) : Prop :=
  ∃ phrase, Derives .chain phrase ∧ phrase.text = source.toList ∧ phrase.depth ≤ depth ∧
    ∀ tags, phrase.tree.holds tags = verdict tags

namespace Decides

variable {depth room : Nat} {source first second : String} {verdict verdict' : TagSet → Bool}

theorem of_parse {rule : Rule} (h : Rule.parse ⟨depth, room⟩ source = .ok rule) :
    Decides depth source rule.holds := by
  obtain ⟨-, htree⟩ := Rule.parse_eq_ok_iff.1 h
  obtain ⟨-, tests, least, hleast, hderives⟩ := Expr.parse_eq_ok_iff.1 htree
  exact ⟨_, hderives, rfl, hleast, fun _ => rfl⟩

theorem exists_parse (h : Decides depth source verdict) (hfits : byteSize source.toList ≤ room) :
    ∃ rule, Rule.parse ⟨depth, room⟩ source = .ok rule ∧
      ∀ tags, rule.holds tags = verdict tags := by
  obtain ⟨phrase, hderives, htext, hdepth, hholds⟩ := h
  have htree : Expr.parse ⟨depth, room⟩ source.toList = .ok phrase.tree := by
    rw [← htext] at hfits ⊢
    exact Expr.parse_eq_ok_iff.2 ⟨hfits, phrase.tests, phrase.depth, hdepth, hderives⟩
  exact ⟨⟨source, phrase.tree⟩, Rule.parse_eq_ok_iff.2 ⟨rfl, htree⟩, hholds⟩

theorem disjoin (h : Decides depth first verdict) (h' : Decides depth second verdict') :
    Decides depth (Rule.disjoin first second) (fun tags => verdict tags || verdict' tags) := by
  obtain ⟨phrase, hderives, hsource, hdepth, hholds⟩ := h
  obtain ⟨phrase', hderives', hsource', hdepth', hholds'⟩ := h'
  have hleft : Derives .chain (phrase.padded [] [' ']) := .padded rfl rfl hderives
  have hright : Derives .chain (phrase'.padded [' '] []) := .padded rfl rfl hderives'
  obtain ⟨whole, hwhole, htext, hbound, hverdict⟩ := hleft.exists_disjunction hright hdepth hdepth'
  refine ⟨whole, hwhole, ?_, hbound, fun tags => ?_⟩
  · simp [htext, Phrase.padded, Operator.symbol, Rule.disjoin, hsource, hsource']
  · simp [hverdict, Phrase.padded, hholds, hholds']

theorem conjoin (h : Decides depth first verdict) (h' : Decides depth second verdict') :
    Decides (depth + 1) (Rule.conjoin first second)
      (fun tags => verdict tags && verdict' tags) := by
  obtain ⟨phrase, hderives, hsource, hdepth, hholds⟩ := h
  obtain ⟨phrase', hderives', hsource', hdepth', hholds'⟩ := h'
  have hparts : ∀ part ∈ [phrase.enclosed.padded [] [' '], phrase'.enclosed.padded [' '] []],
      Derives .operand part ∧ part.depth ≤ depth + 1 := by
    simp only [List.forall_mem_cons]
    exact ⟨⟨.padded rfl rfl hderives.enclosed, Nat.succ_le_succ hdepth⟩,
      ⟨.padded rfl rfl hderives'.enclosed, Nat.succ_le_succ hdepth'⟩, by simp⟩
  refine ⟨_, .conjunct (.conjunction (by simp) (fun part hpart => (hparts part hpart).1)), ?_,
    Phrase.depth_joined_le_iff.2 (fun part hpart => (hparts part hpart).2), fun tags => ?_⟩
  · simp [Phrase.joined, Phrase.padded, Phrase.enclosed, Operator.symbol, List.intercalate,
      Rule.conjoin, hsource, hsource']
  · simp [Phrase.joined, Phrase.padded, Phrase.enclosed, Operator.node, hholds, hholds']

theorem deny (h : Decides depth source verdict) :
    Decides (depth + 2) (Rule.deny source) (fun tags => !verdict tags) := by
  obtain ⟨phrase, hderives, hsource, hdepth, hholds⟩ := h
  refine ⟨_, .conjunct (.operand hderives.enclosed.negated), ?_, ?_, fun tags => ?_⟩
  · simp [Phrase.negated, Phrase.enclosed, Rule.deny, hsource]
  · exact Nat.succ_le_succ (Nat.succ_le_succ hdepth)
  · simp [Phrase.negated, Phrase.enclosed, hholds]

end Decides

namespace Activity

theorem split_eq_filter (rule : Rule) (activities : List Activity) :
    split rule activities =
      (activities.filter (fun activity => rule.holds activity.tags),
        activities.filter (fun activity => !rule.holds activity.tags)) :=
  List.partition_eq_filter_filter

variable {rule denied : Rule}

theorem split_eq_swap (h : ∀ tags, denied.holds tags = !rule.holds tags)
    (activities : List Activity) : split denied activities = (split rule activities).swap := by
  rw [split_eq_filter, split_eq_filter, Prod.swap_prod_mk]
  simp only [h, Bool.not_not]

theorem countMatching_add (h : ∀ tags, denied.holds tags = !rule.holds tags)
    (activities : List Activity) :
    countMatching rule activities + countMatching denied activities = activities.length := by
  rw [countMatching, countMatching, List.countP_eq_length_filter, List.countP_eq_length_filter]
  simp only [h]
  exact (List.length_eq_length_filter_add _).symm

end Activity

namespace Rule

/-- Joining rule texts is boolean algebra. If the joined texts are not too long, they are read
within the depth of their parts and a level for each pair of parentheses and each `!`. -/
theorem parse_connectives {depth room : Nat} {first second : String} {rule other : Rule}
    (hfirst : parse ⟨depth, room⟩ first = .ok rule)
    (hsecond : parse ⟨depth, room⟩ second = .ok other) :
    (byteSize (disjoin first second).toList ≤ room →
      ∃ joined, parse ⟨depth, room⟩ (disjoin first second) = .ok joined ∧
        ∀ tags, joined.holds tags = (rule.holds tags || other.holds tags)) ∧
    (byteSize (conjoin first second).toList ≤ room →
      ∃ joined, parse ⟨depth + 1, room⟩ (conjoin first second) = .ok joined ∧
        ∀ tags, joined.holds tags = (rule.holds tags && other.holds tags)) ∧
    (byteSize (deny first).toList ≤ room →
      ∃ denied, parse ⟨depth + 2, room⟩ (deny first) = .ok denied ∧
        (∀ tags, denied.holds tags = !rule.holds tags) ∧
        ∀ activities,
          let halves := Activity.split rule activities
          Activity.split denied activities = halves.swap ∧
            halves = (activities.filter (fun activity => rule.holds activity.tags),
              activities.filter (fun activity => !rule.holds activity.tags)) ∧
            halves.1.Sublist activities ∧ halves.2.Sublist activities ∧
            Activity.countMatching rule activities + Activity.countMatching denied activities =
              activities.length) := by
  have hdecides := Decides.of_parse hfirst
  have hdecides' := Decides.of_parse hsecond
  refine ⟨(hdecides.disjoin hdecides').exists_parse, (hdecides.conjoin hdecides').exists_parse,
    fun hfits => ?_⟩
  obtain ⟨denied, hparse, hholds⟩ := hdecides.deny.exists_parse hfits
  refine ⟨denied, hparse, hholds, fun activities => ?_⟩
  have hhalves := Activity.split_eq_filter rule activities
  refine ⟨Activity.split_eq_swap hholds activities, hhalves, ?_, ?_,
    Activity.countMatching_add hholds activities⟩
  · rw [hhalves]
    exact List.filter_sublist
  · rw [hhalves]
    exact List.filter_sublist

/-- A rule text that is one group may stand beside a chain, and the two levels of its denial are
both needed. -/
theorem parse_connectives_of_group_and_chain :
    let first := "(scope.has('a') || !scope.has('b'))"
    let second := "scope.has(\"c\")&&scope.has('a') ||scope.hasAny([])"
    let rule : Rule := ⟨first, .or [.atom (.has "a"), .not (.atom (.has "b"))]⟩
    let other : Rule :=
      ⟨second, .or [.and [.atom (.has "c"), .atom (.has "a")], .atom (.hasAny [])]⟩
    parse ⟨2, 100⟩ first = .ok rule ∧ parse ⟨2, 100⟩ second = .ok other ∧
      byteSize (disjoin first second).toList ≤ 100 ∧ byteSize (deny first).toList ≤ 100 ∧
      (∃ joined, parse ⟨2, 100⟩ (first ++ " || " ++ second) = .ok joined ∧
        ∀ tags, joined.holds tags = (rule.holds tags || other.holds tags)) ∧
      parse ⟨3, 100⟩ (deny first) = .error (.tooDeep 3) ∧
      ∃ denied, parse ⟨4, 100⟩ "!((scope.has('a') || !scope.has('b')))" = .ok denied ∧
        ∀ activities,
          Activity.split denied activities = (Activity.split rule activities).swap := by
  intro first second rule other
  have hfirst : parse ⟨2, 100⟩ first = .ok rule :=
    Outcomes.eq_ok_of_toOption (by decide +kernel)
  have hsecond : parse ⟨2, 100⟩ second = .ok other :=
    Outcomes.eq_ok_of_toOption (by decide +kernel)
  have hfits : byteSize (disjoin first second).toList ≤ 100 := by decide +kernel
  have hfits' : byteSize (deny first).toList ≤ 100 := by decide +kernel
  have htext : deny first = "!((scope.has('a') || !scope.has('b')))" := by decide +kernel
  obtain ⟨hor, -, hnot⟩ := parse_connectives hfirst hsecond
  obtain ⟨denied, hparse, -, hsplit⟩ := hnot hfits'
  rw [htext] at hparse
  exact ⟨hfirst, hsecond, hfits, hfits', hor hfits, by decide +kernel, denied, hparse,
    fun activities => (hsplit activities).1⟩

end Rule

end TagRules
