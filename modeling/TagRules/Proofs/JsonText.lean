import Mathlib.Tactic.SplitIfs
import TagRules.Json.Decode
import TagRules.Json.Printer

/-!
Reading back what is printed. A text of which every character is written escaped where it has
to be is read as the text, and so a value that consists of texts, truth values, lists and
records, written on one line, is read as the value.
-/

namespace TagRules.Json

theorem hexValue?_digitChar : ∀ digit < 16, hexValue? (Nat.digitChar digit) = some digit := by
  decide

theorem hexUnit?_control {n : Nat} (hcontrol : n < 0x20) :
    hexUnit? '0' '0' (Nat.digitChar (n / 16)) (Nat.digitChar (n % 16)) = some n := by
  have hhigh : hexValue? (Nat.digitChar (n / 16)) = some (n / 16) :=
    hexValue?_digitChar _ (by omega)
  have hlow : hexValue? (Nat.digitChar (n % 16)) = some (n % 16) :=
    hexValue?_digitChar _ (by omega)
  have hzero : hexValue? '0' = some 0 := by decide
  simp only [hexUnit?, hzero, hhigh, hlow, Option.pure_def, Option.bind_eq_bind, Option.bind_some]
  congr 1
  omega

/-- An escaped character is read as the character. -/
theorem readString_escapedChar (read : List Char) (c : Char) (rest : List Char) :
    readString ⟨read, none, false⟩ (escapedChar c ++ rest) =
      readString ⟨c :: read, none, false⟩ rest := by
  have hshort {e : Char} (he : e ≠ 'u') (hc : unescape? e = some c) :
      readString ⟨read, none, false⟩ ('\\' :: e :: rest) =
        readString ⟨c :: read, none, false⟩ rest := by
    rw [readString]
    · simp [hc, Draft.push]
    · simp [he]
  unfold escapedChar
  split_ifs with hquote hslash hback hfeed hline hreturn htab hcontrol
  · exact hshort (by decide) (by rw [hquote]; rfl)
  · exact hshort (by decide) (by rw [hslash]; rfl)
  · exact hshort (by decide) (by rw [hback]; rfl)
  · exact hshort (by decide) (by rw [hfeed]; rfl)
  · exact hshort (by decide) (by rw [hline]; rfl)
  · exact hshort (by decide) (by rw [hreturn]; rfl)
  · exact hshort (by decide) (by rw [htab]; rfl)
  · have hunit := hexUnit?_control hcontrol
    -- A control character is far below the surrogates.
    have hlow : ¬ (0xd800 ≤ c.toNat ∧ c.toNat < 0xdc00) := by omega
    have hhigh : ¬ (0xdc00 ≤ c.toNat ∧ c.toNat < 0xe000) := by omega
    simp only [List.cons_append, List.nil_append]
    rw [readString, hunit]
    simp only [Draft.pushUnit, if_neg hlow, if_neg hhigh, Char.ofNat_toNat]
  · rw [List.singleton_append, readString]
    · simp [hcontrol, Draft.push]
    · simp [hquote]
    all_goals simp [hslash]

theorem readString_escaped (text read rest : List Char) :
    readString ⟨read, none, false⟩ (text.flatMap escapedChar ++ '"' :: rest) =
      (.string (String.ofList (read.reverse ++ text)), rest) := by
  induction text generalizing read with
  | nil => simp [readString, Draft.finish]
  | cons c text ih =>
    rw [List.flatMap_cons, List.append_assoc, readString_escapedChar, ih, List.reverse_cons,
      List.append_assoc, List.singleton_append]

theorem readString_stringText (text : String) (rest : List Char) :
    readString .start (text.toList.flatMap escapedChar ++ '"' :: rest) = (.string text, rest) := by
  rw [Draft.start, readString_escaped, List.reverse_nil, List.nil_append, String.ofList_toList]

section Steps

variable {fuel : Nat} {c : Char} {text rest tail : List Char} {value : Value}

theorem skipSpace_cons (h : isSpace c = false) : skipSpace (c :: text) = c :: text := by
  rw [skipSpace, List.dropWhile_cons_of_neg (by simp [h])]

theorem readValue_items (hspace : isSpace c = false) (hclose : c ≠ ']') :
    readValue (fuel + 1) ('[' :: c :: text) =
      (.array (readItems fuel (c :: text)).1, (readItems fuel (c :: text)).2) := by
  have hskip : skipSpace ('[' :: c :: text) = '[' :: c :: text := rfl
  rw [readValue, hskip]
  simp only [skipSpace_cons hspace]
  split
  · next h => exact absurd (List.cons.inj h).1 hclose
  · rfl

theorem readValue_members :
    readValue (fuel + 1) ('\x7b' :: '"' :: text) =
      (.object (readMembers fuel ('"' :: text)).1, (readMembers fuel ('"' :: text)).2) :=
  rfl

theorem readItems_last (hvalue : readValue fuel text = (value, ']' :: rest)) :
    readItems (fuel + 1) text = ([value], rest) := by
  have hskip : skipSpace (']' :: rest) = ']' :: rest := rfl
  simp only [readItems, hvalue, hskip]

theorem readItems_next (hvalue : readValue fuel text = (value, ',' :: rest)) :
    readItems (fuel + 1) text = (value :: (readItems fuel rest).1, (readItems fuel rest).2) := by
  have hskip : skipSpace (',' :: rest) = ',' :: rest := rfl
  simp only [readItems, hvalue, hskip]

theorem readMembers_last {name : Value} (hname : readValue fuel text = (name, ':' :: tail))
    (hvalue : readValue fuel tail = (value, '\x7d' :: rest)) :
    readMembers (fuel + 1) text = ([(name, value)], rest) := by
  have hcolon : skipSpace (':' :: tail) = ':' :: tail := rfl
  have hskip : skipSpace ('\x7d' :: rest) = '\x7d' :: rest := rfl
  simp only [readMembers, hname, hcolon, hvalue, hskip]

theorem readMembers_next {name : Value} (hname : readValue fuel text = (name, ':' :: tail))
    (hvalue : readValue fuel tail = (value, ',' :: rest)) :
    readMembers (fuel + 1) text =
      ((name, value) :: (readMembers fuel rest).1, (readMembers fuel rest).2) := by
  have hcolon : skipSpace (':' :: tail) = ':' :: tail := rfl
  have hskip : skipSpace (',' :: rest) = ',' :: rest := rfl
  simp only [readMembers, hname, hcolon, hvalue, hskip]

end Steps

/-- A value that is made of texts, truth values, lists and records. -/
inductive Value.Plain : Value → Prop
  | bool (value : Bool) : Plain (.bool value)
  | string (text : String) : Plain (.string text)
  | array {items : List Value} (hitems : ∀ item ∈ items, Plain item) : Plain (.array items)
  | record {members : List (String × Value)} (hmembers : ∀ member ∈ members, Plain member.2) :
      Plain (.record members)

/-- The value is read back from its text, whatever follows the text. Each character is worth
two steps of the reader. -/
def Value.ReadsBack (value : Value) : Prop :=
  ∀ (fuel : Nat) (rest : List Char), 2 * value.compact.length ≤ fuel →
    readValue fuel (value.compact ++ rest) = (value, rest)

theorem Value.Plain.compact_eq_cons {value : Value} (h : value.Plain) :
    ∃ first tail, value.compact = first :: tail ∧ isSpace first = false ∧ first ≠ ']' := by
  cases h with
  | bool value => cases value <;> exact ⟨_, _, rfl, rfl, by decide⟩
  | string text => exact ⟨'"', _, rfl, rfl, by decide⟩
  | array hitems => exact ⟨'[', _, rfl, rfl, by decide⟩
  | record hmembers => exact ⟨'\x7b', _, rfl, rfl, by decide⟩

/-- One step is always there to be taken, since no text of a value is empty. -/
theorem Value.Plain.readsBack_of_step {value : Value} (h : value.Plain)
    (hstep : ∀ fuel rest, readValue (fuel + 1) (value.compact ++ rest) = (value, rest)) :
    value.ReadsBack := by
  intro fuel rest hfuel
  obtain ⟨first, tail, htext, -⟩ := h.compact_eq_cons
  rw [htext, List.length_cons] at hfuel
  obtain _ | fuel := fuel
  · omega
  · exact hstep fuel rest

theorem Value.readsBack_bool (value : Bool) : (Value.bool value).ReadsBack := by
  refine (Plain.bool value).readsBack_of_step fun fuel rest => ?_
  cases value <;> rfl

theorem Value.compact_string (text : String) :
    (Value.string text).compact = '"' :: (text.toList.flatMap escapedChar ++ ['"']) :=
  rfl

theorem Value.readsBack_string (text : String) : (Value.string text).ReadsBack := by
  refine (Plain.string text).readsBack_of_step fun fuel rest => ?_
  rw [compact_string, List.cons_append, List.append_assoc, List.singleton_append]
  exact readString_stringText text rest

theorem compactItems_cons (value next : Value) (rest : List Value) :
    compactItems (value :: next :: rest) = value.compact ++ ',' :: compactItems (next :: rest) :=
  rfl

theorem readItems_compactItems {items : List Value} (hne : items ≠ [])
    (hitems : ∀ item ∈ items, item.ReadsBack) {fuel : Nat} (rest : List Char)
    (hfuel : 2 * (compactItems items).length < fuel) :
    readItems fuel (compactItems items ++ ']' :: rest) = (items, rest) := by
  induction items generalizing fuel with
  | nil => exact absurd rfl hne
  | cons value items ih =>
    have hvalue := hitems value List.mem_cons_self
    obtain _ | fuel := fuel
    · omega
    cases items with
    | nil => exact readItems_last (hvalue fuel _ (Nat.le_of_lt_succ hfuel))
    | cons next items =>
      rw [compactItems_cons, List.length_append, List.length_cons] at hfuel
      rw [compactItems_cons, List.append_assoc, List.cons_append,
        readItems_next (hvalue fuel _ (by omega)),
        ih (by simp) (fun item hitem => hitems item (List.mem_cons_of_mem _ hitem)) (by omega)]

theorem compactMembers_cons (name value : Value) (next : Value × Value)
    (rest : List (Value × Value)) :
    compactMembers ((name, value) :: next :: rest) =
      name.compact ++ ':' :: value.compact ++ ',' :: compactMembers (next :: rest) :=
  rfl

theorem readMembers_compactMembers {members : List (Value × Value)} (hne : members ≠ [])
    (hmembers : ∀ member ∈ members, member.1.ReadsBack ∧ member.2.ReadsBack) {fuel : Nat}
    (rest : List Char) (hfuel : 2 * (compactMembers members).length < fuel) :
    readMembers fuel (compactMembers members ++ '\x7d' :: rest) = (members, rest) := by
  induction members generalizing fuel with
  | nil => exact absurd rfl hne
  | cons member members ih =>
    obtain ⟨name, value⟩ := member
    have hname : name.ReadsBack := (hmembers _ List.mem_cons_self).1
    have hvalue : value.ReadsBack := (hmembers _ List.mem_cons_self).2
    obtain _ | fuel := fuel
    · omega
    cases members with
    | nil =>
      rw [compactMembers, List.length_append, List.length_cons] at hfuel
      rw [compactMembers, List.append_assoc, List.cons_append]
      exact readMembers_last (hname fuel _ (by omega)) (hvalue fuel _ (by omega))
    | cons next members =>
      rw [compactMembers_cons, List.length_append, List.length_append, List.length_cons,
        List.length_cons] at hfuel
      rw [compactMembers_cons, List.append_assoc, List.append_assoc, List.cons_append,
        List.cons_append, readMembers_next (hname fuel _ (by omega)) (hvalue fuel _ (by omega)),
        ih (by simp) (fun member hmember => hmembers member (List.mem_cons_of_mem _ hmember))
          (by omega)]

theorem Value.readsBack_array {items : List Value} (hplain : ∀ item ∈ items, item.Plain)
    (hitems : ∀ item ∈ items, item.ReadsBack) : (Value.array items).ReadsBack := by
  intro fuel rest hfuel
  have hcompact : (Value.array items).compact = '[' :: (compactItems items ++ [']']) := rfl
  rw [hcompact, List.length_cons, List.length_append, List.length_singleton] at hfuel
  obtain _ | fuel := fuel
  · omega
  rw [hcompact, List.cons_append, List.append_assoc, List.singleton_append]
  cases items with
  | nil => rfl
  | cons value items =>
    obtain ⟨first, tail, htext, hspace, hclose⟩ := (hplain value List.mem_cons_self).compact_eq_cons
    have hfirst : ∃ tail, compactItems (value :: items) ++ ']' :: rest = first :: tail := by
      cases items <;> simp [compactItems, htext]
    have hread : readItems fuel (compactItems (value :: items) ++ ']' :: rest) =
        (value :: items, rest) :=
      readItems_compactItems (by simp) hitems rest (by omega)
    obtain ⟨tail, hopen⟩ := hfirst
    rw [hopen] at hread ⊢
    rw [readValue_items hspace hclose, hread]

theorem Value.readsBack_record {members : List (String × Value)}
    (hmembers : ∀ member ∈ members, member.2.ReadsBack) : (Value.record members).ReadsBack := by
  intro fuel rest hfuel
  let named := members.map (fun member => (Value.string member.1, member.2))
  have hcompact : (Value.record members).compact = '\x7b' :: (compactMembers named ++ ['\x7d']) :=
    rfl
  have hnamed : ∀ member ∈ named, member.1.ReadsBack ∧ member.2.ReadsBack := by
    intro member hmember
    obtain ⟨original, hmem, rfl⟩ := List.mem_map.1 hmember
    exact ⟨readsBack_string original.1, hmembers original hmem⟩
  rw [hcompact, List.length_cons, List.length_append, List.length_singleton] at hfuel
  obtain _ | fuel := fuel
  · omega
  rw [hcompact, List.cons_append, List.append_assoc, List.singleton_append]
  cases members with
  | nil => rfl
  | cons member members =>
    have hread : readMembers fuel (compactMembers named ++ '\x7d' :: rest) = (named, rest) :=
      readMembers_compactMembers (by simp [named]) hnamed rest (by omega)
    have hopen : ∃ tail, compactMembers named ++ '\x7d' :: rest = '"' :: tail := by
      cases members <;> simp [named, compactMembers, compact_string]
    obtain ⟨tail, hopen⟩ := hopen
    rw [hopen] at hread ⊢
    rw [readValue_members, hread]
    rfl

theorem Value.Plain.readsBack {value : Value} (h : value.Plain) : value.ReadsBack := by
  induction h with
  | bool value => exact readsBack_bool value
  | string text => exact readsBack_string text
  | array hplain ih => exact readsBack_array hplain ih
  | record hplain ih => exact readsBack_record ih

/-- A plain value written on one line is decoded as it would be without the text. -/
theorem decode_toCompact {α : Type} (decoder : Decoder α) {value : Value} (h : value.Plain) :
    decode decoder value.toCompact = decoder value := by
  have hread : read value.toCompact.toList = (value, []) := by
    rw [Value.toCompact, String.toList_ofList, read, ← List.append_nil value.compact]
    exact h.readsBack _ _ (by simp)
  simp only [decode, hread]
  cases decoder value with
  | error problem => rfl
  | ok result => rfl

end TagRules.Json
