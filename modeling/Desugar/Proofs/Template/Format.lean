import Desugar.Proofs.Template.Expand
import Desugar.Proofs.Template.Split

/-!
# Formats are read back

The formatting function of the base language reads its first argument from left to right. Two
percent signs stand for one, any other percent sign starts a placeholder, and all else is text.
Nothing parts the texts and the verbs of an expanded template, and still the format is read as the
segments of the template: a text leaves no single percent sign behind, and a verb ends with the
first character that is neither a flag nor a digit nor the point of its precision.

- `Format.read` is the reader of formats, and `Format.placeholder?` finds where a placeholder ends.
- `Format.placeholder?_append`: the reader takes a verb as a whole, whatever stands after it.
- `Format.read_escapePercent` and `Format.read_verb` are the steps over the two kinds of segments,
  and `Format.read_format` is the run over a template.
-/

namespace Desugar

namespace Format

/-! ## The reader -/

/-- The characters that a placeholder may start with. -/
def flags : List Char := ['+', '-', '#', ' ', '0']

/-- The precision at the start of a text, with its point, and what follows it. -/
def precision : List Char → List Char × List Char
  | '.' :: cs => ('.' :: cs.takeWhile Char.isDigit, cs.dropWhile Char.isDigit)
  | cs => ([], cs)

/-- The placeholder at the start of a text, without its percent sign, and what follows it. There is
none if the text ends too early. -/
def placeholder? (cs : List Char) : Option (List Char × List Char) :=
  let flagged := cs.dropWhile flags.contains
  let sized := flagged.dropWhile Char.isDigit
  match (precision sized).2 with
  | [] => none
  | letter :: rest =>
    some (cs.takeWhile flags.contains ++ (flagged.takeWhile Char.isDigit ++
      ((precision sized).1 ++ [letter])), rest)

/-- A precision and what follows it are the text. -/
theorem precision_append (cs : List Char) : (precision cs).1 ++ (precision cs).2 = cs := by
  unfold precision
  split
  · rw [List.cons_append, List.takeWhile_append_dropWhile]
  · rfl

/-- A placeholder is taken from the front of the text. -/
theorem append_of_placeholder? {cs verb rest : List Char}
    (h : placeholder? cs = some (verb, rest)) : verb ++ rest = cs := by
  simp only [placeholder?] at h
  split at h
  · cases h
  · next letter rest hrest =>
    cases h
    have hsized := precision_append ((cs.dropWhile flags.contains).dropWhile Char.isDigit)
    rw [hrest] at hsized
    simp only [List.append_assoc, List.cons_append, List.nil_append, hsized,
      List.takeWhile_append_dropWhile]

/-- What follows a placeholder is shorter. -/
theorem length_le_of_placeholder? {cs verb rest : List Char}
    (h : placeholder? cs = some (verb, rest)) : rest.length ≤ cs.length := by
  rw [← append_of_placeholder? h, List.length_append]
  exact Nat.le_add_left _ _

/-- What a format consists of. -/
inductive Slot where
  | text (value : String)
  | placeholder (verb : String)
deriving DecidableEq

/-- The verb of a placeholder. -/
def Slot.verb? : Slot → Option String
  | text _ => none
  | placeholder verb => some verb

/-- Adds a character in front of slots. -/
def consChar (c : Char) : List Slot → List Slot
  | .text value :: rest => .text (String.singleton c ++ value) :: rest
  | slots => .text (String.singleton c) :: slots

/-- Reads a format. -/
def read (cs : List Char) : Option (List Slot) :=
  match cs with
  | [] => some []
  | '%' :: '%' :: cs => (read cs).map (consChar '%')
  | '%' :: cs =>
    match h : placeholder? cs with
    | none => none
    | some (verb, rest) =>
      have := length_le_of_placeholder? h
      (read rest).map (.placeholder (String.ofList verb) :: ·)
  | c :: cs => (read cs).map (consChar c)
termination_by cs.length

/-! ## Texts -/

/-- A character other than the percent sign is read as it is. -/
theorem read_cons {c : Char} (hc : c ≠ '%') (cs : List Char) :
    read (c :: cs) = (read cs).map (consChar c) := by
  rw [read] <;> intros <;> contradiction

/-- A text with its percent signs doubled is read as the text. -/
theorem read_escapePercent (cs rest : List Char) :
    read (Template.escapePercent cs ++ rest) =
      (read rest).map fun slots => cs.foldr consChar slots := by
  induction cs with
  | nil => simp [Template.escapePercent]
  | cons c cs ih =>
    by_cases hc : c = '%'
    · subst hc
      rw [Template.escapePercent, List.cons_append, List.cons_append, read, ih, Option.map_map]
      rfl
    · have hescape : Template.escapePercent (c :: cs) = c :: Template.escapePercent cs := by
        rw [Template.escapePercent]
        exact hc
      rw [hescape, List.cons_append, read_cons hc, ih, Option.map_map]
      rfl

/-! ## Placeholders -/

/-- Reading a precision goes as far as checking one does. -/
theorem precision_snd (cs : List Char) : (precision cs).2 = Verb.dropPrecision cs := by
  unfold precision
  split
  · rfl
  · next hpoint =>
    rw [Verb.dropPrecision]
    exact hpoint

/-- The reader takes a verb as a whole, whatever stands after it. -/
theorem placeholder?_append {verb : List Char} (h : Verb.isVerbChars verb = true)
    (rest : List Char) : placeholder? (verb ++ rest) = some (verb, rest) := by
  obtain ⟨p, rfl⟩ := Verb.exists_parts h
  have hflags : flags.contains = Verb.isFlag := rfl
  have hrest : (precision (((p.text ++ rest).dropWhile flags.contains).dropWhile
      Char.isDigit)).2 = p.letter :: rest := by
    rw [precision_snd, hflags, p.dropWhile_text, p.dropPrecision_append]
  -- the reader stops after the letter, so what it has taken is the verb
  obtain ⟨taken, htaken⟩ : ∃ taken, placeholder? (p.text ++ rest) = some (taken, rest) := by
    simp only [placeholder?, hrest]
    exact ⟨_, rfl⟩
  have happend : taken ++ rest = p.text ++ rest := append_of_placeholder? htaken
  rw [htaken, List.append_cancel_right happend]

/-- The placeholder of a verb is read as the verb. -/
theorem read_verb {verb : List Char} (h : Verb.isVerbChars verb = true) (rest : List Char) :
    read ('%' :: verb ++ rest) =
      (read rest).map (.placeholder (String.ofList verb) :: ·) := by
  have hpercent : ∀ cs, verb ++ rest ≠ '%' :: cs := by
    intro cs hcs
    cases verb with
    | nil => cases h
    | cons c verb =>
      have hc : c = '%' := (List.cons.inj hcs).1
      have hchar : Verb.isChar c = true := Verb.isChar_of_mem h List.mem_cons_self
      rw [hc] at hchar
      revert hchar
      decide
  rw [List.cons_append, read]
  · split
    · next hnone =>
      rw [placeholder?_append h] at hnone
      cases hnone
    · next hsome =>
      rw [placeholder?_append h] at hsome
      cases hsome
      rfl
  · exact fun cs hcs => hpercent cs hcs

/-! ## Templates -/

/-- The slot that a segment is read back as. -/
def Slot.ofSegment : Segment → Slot
  | .text value => .text value
  | .embed _ verb _ => .placeholder (verb.getD "v")

/-- Adding a character to a text and reading it as a slot may be exchanged. -/
theorem map_consChar (c : Char) (segments : List Segment) :
    (Template.consChar c segments).map Slot.ofSegment =
      consChar c (segments.map Slot.ofSegment) := by
  cases segments with
  | nil => rfl
  | cons segment rest => cases segment <;> rfl

theorem map_consText (cs : List Char) (segments : List Segment) :
    (Template.consText (String.ofList cs) segments).map Slot.ofSegment =
      cs.foldr consChar (segments.map Slot.ofSegment) := by
  induction cs with
  | nil => rfl
  | cons c cs ih =>
    have hcons : Template.consText (String.ofList (c :: cs)) segments =
        Template.consChar c (Template.consText (String.ofList cs) segments) := by
      rw [Template.consChar_consText]
      congr 1
      simp
    rw [hcons, map_consChar, ih, List.foldr_cons]

/-- A format is read as the segments that it was made of. -/
theorem read_format {segments : List Segment} {text : List Char} {args : List Expr}
    (h : Template.format segments = .ok (text, args)) :
    read text = some ((Template.join segments).map Slot.ofSegment) := by
  induction segments generalizing text args with
  | nil =>
    cases h
    rw [read]
    rfl
  | cons segment rest ih =>
    cases segment with
    | text value =>
      obtain ⟨text', hrest, rfl⟩ := Template.format_text_eq_ok.mp h
      rw [read_escapePercent, ih hrest, Option.map_some, ← map_consText, String.ofList_toList]
      rfl
    | embed value verb span =>
      obtain ⟨hverb, text', args', hrest, -, rfl⟩ := Template.format_embed_eq_ok.mp h
      rw [read_verb hverb, ih hrest, Option.map_some, String.ofList_toList]
      rfl

end Format

namespace Template

/-- Adding a text does not change the embeds. -/
theorem filterMap_consText {α : Type} {f : Segment → Option α}
    (hf : ∀ value, f (.text value) = none) (value : String) (segments : List Segment) :
    (consText value segments).filterMap f = segments.filterMap f := by
  unfold consText
  split
  · rfl
  · split
    · simp [hf]
    · simp [hf]

/-- Joining texts leaves the embeds as they are. -/
theorem filterMap_join {α : Type} {f : Segment → Option α}
    (hf : ∀ value, f (.text value) = none) (segments : List Segment) :
    (join segments).filterMap f = segments.filterMap f := by
  induction segments with
  | nil => rfl
  | cons segment rest ih =>
    cases segment with
    | text value => rw [join, filterMap_consText hf, ih, List.filterMap_cons_none (hf value)]
    | embed value verb span => simp [join, List.filterMap_cons, ih]

/-- As many placeholders are read as expressions are embedded. -/
theorem length_placeholders (segments : List Segment) :
    (((join segments).map Format.Slot.ofSegment).filterMap Format.Slot.verb?).length =
      (segments.filterMap Segment.embedded?).length := by
  rw [List.filterMap_map, filterMap_join fun _ => rfl]
  induction segments with
  | nil => rfl
  | cons segment rest ih =>
    cases segment with
    | text value => exact ih
    | embed value verb span => exact congrArg (· + 1) ih

/-- An expanded template is a call whose first argument is read as the segments of the template:
its texts, with neighbouring ones joined and empty ones left out, and a placeholder with the verb
of each embed. The other arguments are the embedded expressions in the same order, one for each
placeholder. -/
theorem expand_reads_back {function : String} {segments : List Segment} {span : Span} {e : Expr}
    (h : expand function segments span = .ok e) :
    ∃ text args slots,
      e = .call (Path.reference function) (.lit (.string text) span :: args) span ∧
      Format.read text.toList = some slots ∧
      slots = (join segments).map Format.Slot.ofSegment ∧
      args = segments.filterMap Segment.embedded? ∧
      (slots.filterMap Format.Slot.verb?).length = args.length := by
  unfold expand at h
  cases hformat : format segments with
  | error fault =>
    rw [hformat] at h
    cases h
  | ok formatted =>
    obtain ⟨text, args⟩ := formatted
    rw [hformat] at h
    cases h
    have hargs : args = segments.filterMap Segment.embedded? := args_format hformat
    refine ⟨String.ofList text, args, _, rfl, ?_, rfl, hargs, ?_⟩
    · rw [String.toList_ofList, Format.read_format hformat]
    · rw [hargs, length_placeholders]

/-- A template whose texts look like parts of the placeholders beside them. -/
def tangled : List Segment :=
  [.text "100%", .text "", .text "5", .embed (Expr.name "x") (some " 08.3f") ⟨7, 20⟩, .text "d%",
    .embed (Expr.name "y") none ⟨22, 26⟩, .text "%"]

/-- The format of `tangled` is read back as its texts and verbs. -/
theorem expand_reads_back_tangled :
    expand "fmt.Sprintf" tangled ⟨0, 27⟩ = .ok (.call (Path.reference "fmt.Sprintf")
        [.lit (.string "100%%5% 08.3fd%%%v%%") ⟨0, 27⟩, Expr.name "x", Expr.name "y"] ⟨0, 27⟩) ∧
      Format.read "100%%5% 08.3fd%%%v%%".toList = some
        [.text "100%5", .placeholder " 08.3f", .text "d%", .placeholder "v", .text "%"] := by
  have hexpand : expand "fmt.Sprintf" tangled ⟨0, 27⟩ = .ok (.call (Path.reference "fmt.Sprintf")
      [.lit (.string "100%%5% 08.3fd%%%v%%") ⟨0, 27⟩, Expr.name "x", Expr.name "y"] ⟨0, 27⟩) := by
    rfl
  refine ⟨hexpand, ?_⟩
  obtain ⟨text, args, slots, hcall, hread, hslots, -⟩ := expand_reads_back hexpand
  cases hcall
  rw [hread, hslots]
  rfl

end Template

end Desugar
