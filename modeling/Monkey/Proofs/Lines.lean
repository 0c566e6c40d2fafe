import Monkey.Text.Line

/-!
# Finding the line of a place

A line of a source starts at the front of the source or behind a newline, has no newline in it but
perhaps at its end, and stops behind that newline or at the end of the source (`IsLine`). Every
place in front of the end of a source is in exactly one of them, and that is the line which is found
there, with its number and the place within it (`lineAt?_exact`).

Cutting a source into lines goes on behind a newline as if the source started there
(`splitLines_append`). So a line is one of the pieces wherever it stands, and the lines in front of
it are as many as the newlines there (`lineAt?_of_isLine`).
-/

namespace Monkey.Text

/-- A text that is one line of a source, between what stands in front of it and behind it. -/
structure IsLine (before text after : List Char) : Prop where
  starts : before = [] ∨ before.getLast? = some '\n'
  inside : '\n' ∉ text.dropLast
  ends : text.getLast? = some '\n' ∨ after = []

/-! ## Cutting a source -/

theorem splitLines_newline (text : List Char) :
    splitLines ('\n' :: text) = ['\n'] :: splitLines text := by
  rw [splitLines, if_pos rfl]

theorem splitLines_cons_of_nil {c : Char} (hc : c ≠ '\n') {text : List Char}
    (h : splitLines text = []) : splitLines (c :: text) = [[c]] := by
  rw [splitLines, if_neg hc, h]

/-- A character that is no newline belongs to the line behind it. -/
theorem splitLines_cons_of_cons {c : Char} (hc : c ≠ '\n') {text line : List Char}
    {lines : List (List Char)} (h : splitLines text = line :: lines) :
    splitLines (c :: text) = (c :: line) :: lines := by
  rw [splitLines, if_neg hc, h]

theorem exists_splitLines {text : List Char} (h : text ≠ []) :
    ∃ line lines, splitLines text = line :: lines := by
  apply List.exists_cons_of_ne_nil
  intro hnil
  apply h
  rw [← flatten_splitLines text, hnil, List.flatten_nil]

/-- What is left of a text that ends with a newline ends with one too, or is empty. -/
theorem ends_of_cons {c : Char} {text : List Char} (h : (c :: text).getLast? = some '\n') :
    text = [] ∨ text.getLast? = some '\n' := by
  cases text with
  | nil => exact .inl rfl
  | cons d text => exact .inr (by rwa [List.getLast?_cons_cons] at h)

theorem ne_nil_of_cons {c : Char} {text : List Char} (hc : c ≠ '\n')
    (h : (c :: text).getLast? = some '\n') : text ≠ [] := by
  intro hnil
  rw [hnil] at h
  exact hc (Option.some.inj h)

/-- Behind a newline a source is cut as if it started there. -/
theorem splitLines_append {front : List Char} (h : front = [] ∨ front.getLast? = some '\n')
    (back : List Char) : splitLines (front ++ back) = splitLines front ++ splitLines back := by
  induction front with
  | nil => rfl
  | cons c front ih =>
    have hlast : (c :: front).getLast? = some '\n' := h.resolve_left (List.cons_ne_nil c front)
    rw [List.cons_append]
    by_cases hc : c = '\n'
    · subst hc
      rw [splitLines_newline, splitLines_newline, ih (ends_of_cons hlast), List.cons_append]
    · obtain ⟨line, lines, hlines⟩ := exists_splitLines (ne_nil_of_cons hc hlast)
      have hrest := ih (ends_of_cons hlast)
      rw [hlines, List.cons_append] at hrest
      rw [splitLines_cons_of_cons hc hrest, splitLines_cons_of_cons hc hlines, List.cons_append]

/-- A text without a newline, but perhaps at its end, is one line. -/
theorem splitLines_of_inside {text : List Char} (hne : text ≠ []) (h : '\n' ∉ text.dropLast) :
    splitLines text = [text] := by
  induction text with
  | nil => exact absurd rfl hne
  | cons c text ih =>
    cases text with
    | nil =>
      by_cases hc : c = '\n'
      · rw [hc]
        rfl
      · exact splitLines_cons_of_nil hc rfl
    | cons d text =>
      rw [List.dropLast_cons_cons, List.mem_cons, not_or] at h
      exact splitLines_cons_of_cons (Ne.symm h.1) (ih (List.cons_ne_nil d text) h.2)

/-- What is in front of a newline is a line, and what is behind it is cut further. -/
theorem splitLines_concat {text : List Char} (h : '\n' ∉ text) (back : List Char) :
    splitLines (text ++ '\n' :: back) = (text ++ ['\n']) :: splitLines back := by
  have hlast : (text ++ ['\n']).getLast? = some '\n' := List.getLast?_concat
  have hone : splitLines (text ++ ['\n']) = [text ++ ['\n']] :=
    splitLines_of_inside (by simp) (by rwa [List.dropLast_concat])
  have happend := splitLines_append (.inr hlast) back
  rw [hone, List.append_assoc] at happend
  exact happend

/-- There are as many lines as newlines, if the last line has one. -/
theorem length_splitLines {text : List Char} (h : text = [] ∨ text.getLast? = some '\n') :
    (splitLines text).length = text.count '\n' := by
  induction text with
  | nil => rfl
  | cons c text ih =>
    have hlast : (c :: text).getLast? = some '\n' := h.resolve_left (List.cons_ne_nil c text)
    by_cases hc : c = '\n'
    · subst hc
      rw [splitLines_newline, List.length_cons, ih (ends_of_cons hlast), List.count_cons_self]
    · obtain ⟨line, lines, hlines⟩ := exists_splitLines (ne_nil_of_cons hc hlast)
      rw [splitLines_cons_of_cons hc hlines, List.count_cons_of_ne hc, ← ih (ends_of_cons hlast),
        hlines]
      rfl

/-- A source is cut in front of a line and behind it. -/
theorem IsLine.splitLines_eq {before text after : List Char} (h : IsLine before text after)
    (hne : text ≠ []) :
    splitLines (before ++ (text ++ after)) =
      splitLines before ++ text :: splitLines after := by
  rw [splitLines_append h.starts]
  rcases h.ends with hlast | rfl
  · rw [splitLines_append (.inr hlast), splitLines_of_inside hne h.inside]
    rfl
  · rw [List.append_nil, splitLines_of_inside hne h.inside]
    rfl

/-! ## Finding a line -/

/-- A place behind some lines is looked for behind them. -/
theorem findLine?_append (number offset : Nat) (front lines : List (List Char)) :
    findLine? number (byteLength front.flatten + offset) (front ++ lines) =
      findLine? (number + front.length) offset lines := by
  induction front generalizing number with
  | nil => simp
  | cons line front ih =>
    have hbehind : ¬byteLength (line :: front).flatten + offset < byteLength line := by
      rw [List.flatten_cons, byteLength_append]
      omega
    have hrest : byteLength (line :: front).flatten + offset - byteLength line =
        byteLength front.flatten + offset := by
      rw [List.flatten_cons, byteLength_append]
      omega
    have hnumber : number + 1 + front.length = number + (line :: front).length := by
      rw [List.length_cons]
      omega
    rw [List.cons_append, findLine?, if_neg hbehind, hrest, ih, hnumber]

/-- A place in a line of a source is found there. -/
theorem lineAt?_of_isLine {before text after : List Char} (h : IsLine before text after)
    {offset : Nat} (hoffset : offset < byteLength text) :
    lineAt? (before ++ (text ++ after)) (byteLength before + offset) =
      some ⟨before.count '\n' + 1, text, offset⟩ := by
  have hne : text ≠ [] := by
    intro hnil
    rw [hnil] at hoffset
    exact Nat.not_lt_zero _ hoffset
  have hfind := findLine?_append 1 offset (splitLines before) (text :: splitLines after)
  rw [flatten_splitLines] at hfind
  rw [lineAt?, h.splitLines_eq hne, hfind, findLine?, if_pos hoffset, length_splitLines h.starts,
    Nat.add_comm]

/-- A source that is not empty starts with a line. -/
theorem exists_isLine {source : List Char} (h : source ≠ []) :
    ∃ text after, source = text ++ after ∧ text ≠ [] ∧ IsLine [] text after := by
  induction source with
  | nil => exact absurd rfl h
  | cons c source ih =>
    by_cases hc : c = '\n'
    · exact ⟨[c], source, rfl, List.cons_ne_nil _ _, .inl rfl, List.not_mem_nil,
        .inl (congrArg some hc)⟩
    · cases source with
      | nil =>
        exact ⟨[c], [], rfl, List.cons_ne_nil _ _, .inl rfl, List.not_mem_nil, .inr rfl⟩
      | cons d source =>
        obtain ⟨text, after, hsource, hne, hline⟩ := ih (List.cons_ne_nil _ _)
        obtain ⟨e, rest, rfl⟩ := List.exists_cons_of_ne_nil hne
        refine ⟨c :: e :: rest, after, by rw [hsource]; rfl, List.cons_ne_nil _ _,
          .inl rfl, ?_, ?_⟩
        · rw [List.dropLast_cons_cons, List.mem_cons, not_or]
          exact ⟨Ne.symm hc, hline.inside⟩
        · rw [List.getLast?_cons_cons]
          exact hline.ends

/-- A line that ends with a newline makes the lines behind it those of a longer source. -/
theorem IsLine.prepend {front before text after : List Char} (h : IsLine before text after)
    (hfront : front.getLast? = some '\n') : IsLine (front ++ before) text after := by
  refine ⟨.inr ?_, h.inside, h.ends⟩
  rcases h.starts with rfl | hlast
  · rwa [List.append_nil]
  · rw [List.getLast?_append, hlast]
    rfl

/-- Every place in front of the end of a source is in a line of it. -/
theorem exists_isLine_at {source : List Char} {offset : Nat} (h : offset < byteLength source) :
    ∃ before text after inner, source = before ++ (text ++ after) ∧ IsLine before text after ∧
      byteLength before + inner = offset ∧ inner < byteLength text := by
  generalize hlength : source.length = n
  induction n using Nat.strongRecOn generalizing source offset with
  | _ n ih =>
    subst hlength
    have hne : source ≠ [] := by
      intro hnil
      rw [hnil] at h
      exact Nat.not_lt_zero _ h
    obtain ⟨first, rest, rfl, hfirst, hline⟩ := exists_isLine hne
    by_cases hin : offset < byteLength first
    · exact ⟨[], first, rest, offset, rfl, hline, Nat.zero_add _, hin⟩
    · rw [byteLength_append] at h
      have hshorter : rest.length < (first ++ rest).length := by
        have hpos := List.length_pos_iff.2 hfirst
        rw [List.length_append]
        omega
      have hbehind : offset - byteLength first < byteLength rest := by omega
      obtain ⟨before, text, after, inner, hrest, hline', hoffset, hinner⟩ :=
        ih _ hshorter hbehind rfl
      -- there is something behind the first line, so it ends with a newline
      have hlast : first.getLast? = some '\n' := by
        refine hline.ends.resolve_right fun hnil => ?_
        rw [hnil] at hbehind
        exact Nat.not_lt_zero _ hbehind
      refine ⟨first ++ before, text, after, inner, by rw [hrest, List.append_assoc],
        hline'.prepend hlast, ?_, hinner⟩
      rw [byteLength_append]
      omega

/-- The line that is found at a place is the one that it is in. -/
theorem lineAt?_eq_some_iff {source : List Char} {offset : Nat} {line : Line} :
    lineAt? source offset = some line ↔
      ∃ before after, source = before ++ (line.text ++ after) ∧ IsLine before line.text after ∧
        line.number = before.count '\n' + 1 ∧ byteLength before + line.offset = offset ∧
        line.offset < byteLength line.text := by
  constructor
  · intro h
    have hlt : offset < byteLength source := (isSome_lineAt? source offset).1 (by rw [h]; rfl)
    obtain ⟨before, text, after, inner, rfl, hline, rfl, hinner⟩ := exists_isLine_at hlt
    rw [lineAt?_of_isLine hline hinner] at h
    cases h
    exact ⟨before, after, rfl, hline, rfl, rfl, hinner⟩
  · rintro ⟨before, after, rfl, hline, hnumber, rfl, hinner⟩
    rw [lineAt?_of_isLine hline hinner, ← hnumber]

theorem lineAt?_eq_none_iff {source : List Char} {offset : Nat} :
    lineAt? source offset = none ↔ byteLength source ≤ offset := by
  rw [← Nat.not_lt, ← isSome_lineAt?, Option.not_isSome_iff_eq_none]

/--
At the end of a source and behind it no line is found. At any other place the line is found that the
place is in: it starts at the front of the source or behind a newline, its number is one more than
there are newlines in front of it, there is no newline in it but perhaps at its end, and it goes on
up to a newline or the end of the source.
-/
theorem lineAt?_exact (source : List Char) (offset : Nat) :
    (lineAt? source offset = none ↔ byteLength source ≤ offset) ∧
    ∀ line, lineAt? source offset = some line ↔
      ∃ before after, source = before ++ (line.text ++ after) ∧
        byteLength before + line.offset = offset ∧ line.offset < byteLength line.text ∧
        line.number = before.count '\n' + 1 ∧
        (before = [] ∨ before.getLast? = some '\n') ∧ '\n' ∉ line.text.dropLast ∧
        (line.text.getLast? = some '\n' ∨ after = []) := by
  refine ⟨lineAt?_eq_none_iff, ?_⟩
  intro line
  rw [lineAt?_eq_some_iff]
  constructor
  · rintro ⟨before, after, hsource, hline, hnumber, hoffset, hinner⟩
    exact ⟨before, after, hsource, hoffset, hinner, hnumber, hline.starts, hline.inside,
      hline.ends⟩
  · rintro ⟨before, after, hsource, hoffset, hinner, hnumber, hstarts, hinside, hends⟩
    exact ⟨before, after, hsource, ⟨hstarts, hinside, hends⟩, hnumber, hoffset, hinner⟩

end Monkey.Text
