import TagRules.Text.Span

/-!
What trimming keeps. Every text is its trimmed core between two runs of blanks,
and two texts with equal cores are read alike, so a proof about reading may put
blanks around a text or take them away.
-/

namespace TagRules.Text

theorem isAllBlank_iff {text : List Char} :
    isAllBlank text = true ↔ ∀ c ∈ text, isBlank c = true := by
  simp [isAllBlank]

@[simp] theorem isAllBlank_nil : isAllBlank [] = true := rfl

@[simp] theorem isAllBlank_cons (c : Char) (rest : List Char) :
    isAllBlank (c :: rest) = (isBlank c && isAllBlank rest) := rfl

@[simp] theorem isAllBlank_append (front back : List Char) :
    isAllBlank (front ++ back) = (isAllBlank front && isAllBlank back) := by
  simp [isAllBlank]

@[simp] theorem isAllBlank_reverse (text : List Char) :
    isAllBlank text.reverse = isAllBlank text := by
  simp [isAllBlank]

@[simp] theorem beforeLast?_concat (last : Char) (front : List Char) :
    beforeLast? last (front ++ [last]) = some front :=
  beforeLast?_eq_some.2 rfl

/-- A text that neither begins nor ends with a blank. -/
structure Trimmed (text : List Char) : Prop where
  head : ∀ c, text.head? = some c → isBlank c = false
  last : ∀ c, text.getLast? = some c → isBlank c = false

theorem trimStart_append_of_blank {before : List Char} (hbefore : isAllBlank before = true)
    (text : List Char) : trimStart (before ++ text) = trimStart text := by
  rw [trimStart, trimStart]
  exact List.dropWhile_append_of_pos (isAllBlank_iff.1 hbefore)

theorem trimEnd_append_of_blank {after : List Char} (hafter : isAllBlank after = true)
    (text : List Char) : trimEnd (text ++ after) = trimEnd text := by
  have hreverse : ∀ c ∈ after.reverse, isBlank c = true := by
    rw [← isAllBlank_iff, isAllBlank_reverse]
    exact hafter
  rw [trimEnd, trimEnd, List.reverse_append, List.dropWhile_append_of_pos hreverse]

theorem trimStart_of_head {text : List Char} (h : ∀ c, text.head? = some c → isBlank c = false) :
    trimStart text = text := by
  cases text with
  | nil => rfl
  | cons c rest =>
    have hc : ¬isBlank c = true := by simp [h c rfl]
    exact List.dropWhile_cons_of_neg hc

theorem trimEnd_of_last {text : List Char}
    (h : ∀ c, text.getLast? = some c → isBlank c = false) : trimEnd text = text := by
  have hreverse : trimStart text.reverse = text.reverse := by
    apply trimStart_of_head
    intro c hc
    exact h c (by rwa [List.head?_reverse] at hc)
  rw [trimStart] at hreverse
  rw [trimEnd, hreverse, List.reverse_reverse]

theorem trim_of_trimmed {text : List Char} (h : Trimmed text) : trim text = text := by
  rw [trim, trimStart_of_head h.head, trimEnd_of_last h.last]

theorem head_trimStart (text : List Char) (c : Char)
    (h : (trimStart text).head? = some c) : isBlank c = false := by
  have hnot := List.head?_dropWhile_not isBlank text
  rw [trimStart] at h
  simpa [h] using hnot

theorem last_trimEnd (text : List Char) (c : Char)
    (h : (trimEnd text).getLast? = some c) : isBlank c = false := by
  rw [trimEnd, List.getLast?_reverse] at h
  exact head_trimStart text.reverse c h

theorem trimStart_eq_append (text : List Char) :
    ∃ before, isAllBlank before = true ∧ text = before ++ trimStart text := by
  refine ⟨text.takeWhile isBlank, ?_, (takeWhile_append_trimStart text).symm⟩
  rw [isAllBlank_iff]
  intro c hc
  exact List.all_eq_true.1 List.all_takeWhile c hc

theorem trimEnd_eq_append (text : List Char) :
    ∃ after, isAllBlank after = true ∧ text = trimEnd text ++ after := by
  obtain ⟨before, hblank, hbefore⟩ := trimStart_eq_append text.reverse
  refine ⟨before.reverse, by rwa [isAllBlank_reverse], ?_⟩
  have h := congrArg List.reverse hbefore
  rwa [List.reverse_reverse, List.reverse_append] at h

theorem trimmed_trim (text : List Char) : Trimmed (trim text) := by
  refine ⟨?_, last_trimEnd (trimStart text)⟩
  intro c hc
  obtain ⟨after, -, hafter⟩ := trimEnd_eq_append (trimStart text)
  apply head_trimStart text c
  rw [hafter, List.head?_append]
  exact Option.or_eq_some_iff.2 (Or.inl hc)

/-- A text is its trimmed core between two runs of blanks. -/
theorem exists_trim (text : List Char) :
    ∃ before after, isAllBlank before = true ∧ isAllBlank after = true ∧
      text = before ++ trim text ++ after := by
  obtain ⟨before, hbefore, hstart⟩ := trimStart_eq_append text
  obtain ⟨after, hafter, hend⟩ := trimEnd_eq_append (trimStart text)
  refine ⟨before, after, hbefore, hafter, ?_⟩
  rw [List.append_assoc, trim, ← hend]
  exact hstart

theorem Span.exists_trim (span : Span) :
    ∃ before after, isAllBlank before = true ∧ isAllBlank after = true ∧
      span.text = before ++ span.trim.text ++ after ∧
      span.trim.start = span.start + byteSize before := by
  obtain ⟨after, hafter, hend⟩ := trimEnd_eq_append (trimStart span.text)
  refine ⟨span.text.takeWhile isBlank, after, List.all_takeWhile, hafter, ?_, rfl⟩
  change span.text = span.text.takeWhile isBlank ++ Text.trim span.text ++ after
  rw [List.append_assoc, Text.trim, ← hend, takeWhile_append_trimStart]

theorem Span.trim_of_trimmed {span : Span} (h : Trimmed span.text) : span.trim = span := by
  have hstart : span.text.takeWhile isBlank = [] := by
    have hsplit := takeWhile_append_trimStart span.text
    rw [trimStart_of_head h.head] at hsplit
    exact List.append_left_eq_self.1 hsplit
  rw [Span.trim, Text.trim_of_trimmed h, hstart]
  rfl

theorem trim_padded_of_trimmed {before core after : List Char}
    (hbefore : isAllBlank before = true) (hafter : isAllBlank after = true)
    (hcore : Trimmed core) : trim (before ++ core ++ after) = core := by
  rw [trim, List.append_assoc, trimStart_append_of_blank hbefore]
  cases core with
  | nil =>
    have hall : trimStart after = [] := by
      have h := trimStart_append_of_blank hafter []
      rwa [List.append_nil] at h
    rw [List.nil_append, hall]
    rfl
  | cons c rest =>
    have hstart : trimStart (c :: rest ++ after) = c :: rest ++ after := by
      apply trimStart_of_head
      intro d hd
      exact hcore.head d (by simpa using hd)
    rw [hstart, trimEnd_append_of_blank hafter, trimEnd_of_last hcore.last]

/-- Blanks around a text do not survive trimming. -/
theorem trim_padded {before after : List Char} (hbefore : isAllBlank before = true)
    (hafter : isAllBlank after = true) (text : List Char) :
    trim (before ++ text ++ after) = trim text := by
  obtain ⟨front, back, hfront, hback, htext⟩ := exists_trim text
  have hwide : before ++ text ++ after = before ++ front ++ trim text ++ (back ++ after) := by
    rw [htext, trim_padded_of_trimmed hfront hback (trimmed_trim text)]
    simp
  rw [hwide]
  exact trim_padded_of_trimmed (by simp [hbefore, hfront]) (by simp [hback, hafter])
    (trimmed_trim text)

theorem trim_blank_append {before : List Char} (hbefore : isAllBlank before = true)
    (text : List Char) : trim (before ++ text) = trim text := by
  have h := trim_padded hbefore isAllBlank_nil text
  rwa [List.append_nil] at h

theorem trim_append_blank {after : List Char} (hafter : isAllBlank after = true)
    (text : List Char) : trim (text ++ after) = trim text :=
  trim_padded isAllBlank_nil hafter text

@[simp] theorem trim_trim (text : List Char) : trim (trim text) = trim text :=
  trim_of_trimmed (trimmed_trim text)

theorem trim_trimEnd (text : List Char) : trim (trimEnd text) = trim text := by
  obtain ⟨after, hafter, htext⟩ := trimEnd_eq_append text
  have h := trim_append_blank hafter (trimEnd text)
  rw [← htext] at h
  exact h.symm

theorem isAllBlank_iff_trim {text : List Char} : isAllBlank text = true ↔ trim text = [] := by
  constructor
  · intro h
    have htrim := trim_blank_append h []
    rwa [List.append_nil] at htrim
  · intro h
    obtain ⟨before, after, hbefore, hafter, htext⟩ := exists_trim text
    rw [htext, h]
    simp [hbefore, hafter]

theorem isAllBlank_of_trim_eq {text other : List Char} (h : trim text = trim other) :
    isAllBlank text = isAllBlank other := by
  rw [Bool.eq_iff_iff, isAllBlank_iff_trim, isAllBlank_iff_trim, h]

theorem trim_cons {c : Char} (hc : isBlank c = false) (rest : List Char) :
    trim (c :: rest) = c :: trimEnd rest := by
  have hstart : trimStart (c :: rest) = c :: rest :=
    trimStart_of_head (fun d hd => by simp_all)
  have hsplit : ∀ text : List Char,
      (text.reverse ++ [c]).dropWhile isBlank = text.reverse.dropWhile isBlank ++ [c] := by
    intro text
    rw [List.dropWhile_append]
    split
    · next hempty => simp_all
    · rfl
  rw [trim, hstart, trimEnd, List.reverse_cons, hsplit, List.reverse_append]
  rfl

theorem byteSize_trim_le (text : List Char) : byteSize (trim text) ≤ byteSize text := by
  obtain ⟨before, after, -, -, htext⟩ := exists_trim text
  have hsize := congrArg byteSize htext
  rw [byteSize_append, byteSize_append] at hsize
  omega

theorem length_le_byteSize (text : List Char) : text.length ≤ byteSize text := by
  induction text with
  | nil => simp
  | cons c rest ih =>
    have hsize := Char.utf8Size_pos c
    rw [List.length_cons, byteSize_cons]
    omega

end TagRules.Text
