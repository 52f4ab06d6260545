import TagRules.Proofs.Trimming

/-!
Stretches of a text that stand where their offsets say. Offsets count bytes, so two fronts of
one text are compared by their sizes, and what lies on one side of an offset is a stretch of
that side.
-/

namespace TagRules.Text

theorem byteSize_eq_zero_iff {text : List Char} : byteSize text = 0 ↔ text = [] := by
  cases text with
  | nil => simp
  | cons c rest =>
    have hsize := Char.utf8Size_pos c
    simp only [byteSize_cons, reduceCtorEq, iff_false]
    omega

/-- Of two fronts of one text the shorter one begins the longer one. -/
theorem exists_middle_of_append_eq {front back front' back' : List Char}
    (h : front ++ back = front' ++ back') (hle : byteSize front ≤ byteSize front') :
    ∃ middle, front' = front ++ middle ∧ back = middle ++ back' := by
  rcases List.append_eq_append_iff.1 h with ⟨middle, hfront, hback⟩ | ⟨middle, hfront, hback⟩
  · exact ⟨middle, hfront, hback⟩
  · rw [hfront, byteSize_append] at hle
    have hempty : middle = [] := byteSize_eq_zero_iff.1 (by omega)
    subst hempty
    exact ⟨[], by simpa using hfront.symm, by simpa using hback.symm⟩

namespace Span

variable {span whole outer : Span} {front back : List Char} {start : Nat}

/-- The span is a stretch of the other one, where its offset says. -/
def Within (span whole : Span) : Prop :=
  ∃ front back, whole.text = front ++ span.text ++ back ∧ whole.start + byteSize front = span.start

theorem Within.start_le (h : span.Within whole) : whole.start ≤ span.start := by
  obtain ⟨front, back, -, hstart⟩ := h
  omega

theorem Within.stop_le (h : span.Within whole) : span.stop ≤ whole.stop := by
  obtain ⟨front, back, htext, hstart⟩ := h
  rw [stop, stop, htext, byteSize_append, byteSize_append]
  omega

theorem Within.trans (h : span.Within whole) (hwhole : whole.Within outer) : span.Within outer := by
  obtain ⟨front, back, htext, hstart⟩ := h
  obtain ⟨front', back', htext', hstart'⟩ := hwhole
  refine ⟨front' ++ front, back ++ back', by simp [htext', htext], ?_⟩
  rw [byteSize_append]
  omega

/-- A span that ends where the front does, or before, lies within the front. -/
theorem Within.left (h : span.Within ⟨front ++ back, start⟩)
    (hstop : span.stop ≤ start + byteSize front) : span.Within ⟨front, start⟩ := by
  obtain ⟨before, after, htext, hstart⟩ := h
  simp only [] at htext hstart
  have hle : byteSize (before ++ span.text) ≤ byteSize front := by
    rw [stop] at hstop
    rw [byteSize_append]
    omega
  obtain ⟨middle, hfront, -⟩ := exists_middle_of_append_eq htext.symm hle
  exact ⟨before, middle, hfront, hstart⟩

/-- A span that starts behind the front lies within the rest. -/
theorem Within.right (h : span.Within ⟨front ++ back, start⟩)
    (hstart : start + byteSize front ≤ span.start) :
    span.Within ⟨back, start + byteSize front⟩ := by
  obtain ⟨before, after, htext, hbefore⟩ := h
  simp only [] at htext hbefore
  rw [List.append_assoc] at htext
  obtain ⟨middle, rfl, hback⟩ := exists_middle_of_append_eq htext (by omega)
  refine ⟨middle, after, by simpa using hback, ?_⟩
  rw [byteSize_append] at hbefore
  simp only []
  omega

theorem Within.eq (h : span.Within whole) (hstart : span.start = whole.start)
    (hstop : span.stop = whole.stop) : span = whole := by
  obtain ⟨before, after, htext, hbefore⟩ := h
  rw [stop, stop, htext, byteSize_append, byteSize_append] at hstop
  have hnil : before = [] := byteSize_eq_zero_iff.1 (by omega)
  have hnil' : after = [] := byteSize_eq_zero_iff.1 (by omega)
  subst hnil hnil'
  obtain ⟨text, start⟩ := span
  obtain ⟨text', start'⟩ := whole
  simp_all

/-- A character is not split: where it starts within the front, all of it is there. -/
theorem Within.char_left {c : Char} {offset : Nat}
    (h : Within ⟨[c], offset⟩ ⟨front ++ back, start⟩) (hlt : offset < start + byteSize front) :
    Within ⟨[c], offset⟩ ⟨front, start⟩ := by
  obtain ⟨before, after, htext, hbefore⟩ := h
  simp only [List.append_assoc] at htext hbefore
  obtain ⟨middle, rfl, hback⟩ := exists_middle_of_append_eq htext.symm (by omega)
  rcases List.cons_eq_append_iff.1 hback with ⟨rfl, -⟩ | ⟨rest, rfl, -⟩
  · rw [List.append_nil] at hlt
    omega
  · exact ⟨before, rest, by simp, hbefore⟩

theorem Within.mem {c : Char} {offset : Nat} (h : Within ⟨[c], offset⟩ whole) : c ∈ whole.text := by
  obtain ⟨before, after, htext, -⟩ := h
  simp [htext]

theorem trim_within (span : Span) : span.trim.Within span := by
  obtain ⟨before, after, -, -, htext, hstart⟩ := span.exists_trim
  exact ⟨before, after, htext, hstart.symm⟩

theorem trim_start_lt (h : isAllBlank span.text = false) : span.trim.start < span.stop := by
  have hne : byteSize (Text.trim span.text) ≠ 0 := by
    rw [ne_eq, byteSize_eq_zero_iff, ← isAllBlank_iff_trim, h]
    simp
  have hstop := span.trim_within.stop_le
  change span.trim.start + byteSize (Text.trim span.text) ≤ span.stop at hstop
  omega

/-- What trimming takes away is blank. -/
theorem isBlank_of_outside_trim {c : Char} {offset : Nat} (h : Within ⟨[c], offset⟩ span)
    (hout : offset < span.trim.start ∨ span.trim.stop ≤ offset) : isBlank c = true := by
  obtain ⟨before, after, hbefore, hafter, htext, hstart⟩ := span.exists_trim
  have hwithin : Within ⟨[c], offset⟩ ⟨before ++ (span.trim.text ++ after), span.start⟩ := by
    rw [← List.append_assoc, ← htext]
    exact h
  rcases hout with hlt | hge
  · rw [hstart] at hlt
    exact isAllBlank_iff.1 hbefore c (hwithin.char_left hlt).mem
  · rw [stop, hstart] at hge
    have hbehind := hwithin.right (by simp only []; omega)
    exact isAllBlank_iff.1 hafter c (hbehind.right hge).mem

/-- A span of the whole that reaches from one end or cut of it to the next. A cut is two bytes
long. -/
structure Between (whole : Span) (cuts : Nat → Prop) (span : Span) : Prop where
  placed : span.Within whole
  left : span.start = whole.start ∨ ∃ cut, cuts cut ∧ cut + 2 = span.start
  right : span.stop = whole.stop ∨ cuts span.stop
  uncut : ∀ cut, cuts cut → cut + 2 ≤ span.start ∨ span.stop ≤ cut

end Span

end TagRules.Text
