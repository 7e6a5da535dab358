import Desugar.Proofs.Emit.Token
import Desugar.Proofs.Template.Expand
import Desugar.Proofs.Template.Split

/-!
# Verbs on their way into formats

The verb of an embed is looked for behind the last colon, cut off, freed of the blanks at its ends,
tested, kept in the segment, tested again and written into the format. On this way a verb loses
the spaces that it starts with, although a space is one of its flags, and nothing else.

- `Verb.trim_eq_unspaced`: of a verb, trimming takes the spaces at its start.
- `Template.split_source_verb` splits a template of one embed with any balanced source.
- `Template.expand_verb` expands the segment that comes out of it.
- `Template.split_expand_verb` joins the two for an embedded identifier.
-/

namespace Desugar

/-! ## Spaces before verbs -/

namespace Verb

/-- A verb without the spaces that it starts with. -/
def unspaced (verb : String) : String := String.ofList (verb.toList.dropWhile (· == ' '))

/-- A verb is what is left of it after the spaces that it starts with. -/
theorem exists_spaces (verb : String) :
    ∃ spaces, verb.toList = spaces ++ (unspaced verb).toList ∧ ∀ c ∈ spaces, c = ' ' := by
  refine ⟨verb.toList.takeWhile (· == ' '), ?_, fun c hc => ?_⟩
  · rw [unspaced, String.toList_ofList, List.takeWhile_append_dropWhile]
  · exact beq_iff_eq.mp (List.all_eq_true.mp List.all_takeWhile c hc)

theorem head?_unspaced (verb : String) : (unspaced verb).toList.head? ≠ some ' ' := by
  intro hhead
  have hspace := List.head?_dropWhile_not (· == ' ') verb.toList
  rw [unspaced, String.toList_ofList] at hhead
  rw [hhead] at hspace
  cases hspace

/-- Spaces are flags, so without those at its start a verb is a verb. -/
theorem isVerb_unspaced {verb : String} (h : isVerb verb = true) :
    isVerb (unspaced verb) = true := by
  obtain ⟨spaces, hverb, hspaces⟩ := exists_spaces verb
  have hflags : ∀ c ∈ spaces, isFlag c = true := by
    intro c hc
    rw [hspaces c hc]
    rfl
  have hdrop : isVerbChars (spaces ++ (unspaced verb).toList) =
      isVerbChars (unspaced verb).toList := by
    rw [isVerbChars, List.dropWhile_append_of_pos hflags, isVerbChars]
  rw [isVerb, ← hdrop, ← hverb]
  exact h

/-- Of a verb, trimming takes the spaces at its start. -/
theorem trim_eq_unspaced {verb : String} (h : isVerb verb = true) :
    Blank.trim verb.toList = (unspaced verb).toList := by
  obtain ⟨spaces, hverb, hspaces⟩ := exists_spaces verb
  have hblank : ∀ c ∈ spaces, Blank.isBlank c = true := by
    intro c hc
    rw [hspaces c hc]
    rfl
  rw [hverb, Blank.trim_append hblank]
  exact trim_eq_self (isVerb_unspaced h) (head?_unspaced verb)

/-- Nothing is lost exactly if the verb does not start with a space. -/
theorem unspaced_eq_self_iff (verb : String) :
    unspaced verb = verb ↔ verb.toList.head? ≠ some ' ' := by
  constructor
  · intro heq
    rw [← heq]
    exact head?_unspaced verb
  · intro hhead
    rw [unspaced, ← String.toList_inj, String.toList_ofList]
    cases hverb : verb.toList with
    | nil => rfl
    | cons c cs =>
      have hc : c ≠ ' ' := by
        rintro rfl
        exact hhead (by rw [hverb, List.head?_cons])
      exact List.dropWhile_cons_of_neg (by simp [hc])

end Verb

/-! ## Identifiers -/

namespace Lexical.Alphabet

/-- The letters and digits of an alphabet are no blanks. -/
def IsVisible (A : Alphabet) : Prop :=
  ∀ c, A.letter c = true ∨ A.digit c = true → Blank.isBlank c = false

/-- Within ASCII, letters, digits and the underscore open and close nothing and are no blanks. -/
theorem word_table : ((List.range 128).map Char.ofNat).all (fun c =>
    !(c.isAlpha || c == '_' || c.isDigit) || (Nesting.isPlain c && !Blank.isBlank c)) = true := by
  decide +kernel

/-- What opens or closes something is an ASCII character. -/
theorem isPlain_of_le {c : Char} (h : 128 ≤ c.toNat) : Nesting.isPlain c = true := by
  have hne {d : Char} (hd : d.toNat < 128) : c ≠ d := by
    rintro rfl
    omega
  have hquote : Nesting.isQuote c = false := by
    simp [Nesting.isQuote, Nesting.rawQuote, hne]
  have hopening : Nesting.isOpening c = false := by
    simp [Nesting.isOpening, hne]
  have hclosing : Nesting.isClosing c = false := by
    simp [Nesting.isClosing, hne]
  rw [Nesting.isPlain, hquote, hopening, hclosing]
  rfl

/-- The characters of words are neither brackets nor quotes nor blanks. -/
theorem plain_of_isPart {A : Alphabet} (hA : A.IsVisible) {c : Char} (h : A.isPart c = true) :
    Nesting.isPlain c = true ∧ Blank.isBlank c = false := by
  unfold isPart isLetter at h
  by_cases hascii : c.toNat < 128
  · rw [if_pos hascii, if_pos hascii] at h
    have hc := ascii_of_table word_table hascii
    simpa [h] using hc
  · rw [if_neg hascii, if_neg hascii, Bool.or_eq_true] at h
    exact ⟨isPlain_of_le (Nat.not_lt.mp hascii), hA c h⟩

/-- An identifier is a balanced text that has no blanks. -/
theorem exists_source {A : Alphabet} (hA : A.IsVisible) {name : String}
    (h : A.isIdentifier name = true) : ∃ source : Source, source.text = name.toList ∧
      (∃ c ∈ source.text, Blank.isBlank c = false) ∧ Blank.trim source.text = name.toList := by
  obtain ⟨c, cs, hname, hletter, hparts, -⟩ := isIdentifier_iff.mp h
  have hpart : ∀ d ∈ name.toList, A.isPart d = true := by
    intro d hd
    rw [hname] at hd
    rcases List.mem_cons.mp hd with rfl | hd
    · exact Bool.or_eq_true_iff.mpr (.inl hletter)
    · exact List.all_eq_true.mp hparts d hd
  have hblank : ∀ d ∈ name.toList, Blank.isBlank d = false :=
    fun d hd => (plain_of_isPart hA (hpart d hd)).2
  obtain ⟨source, hsource, -⟩ :=
    Source.exists_of_isPlain fun d hd => (plain_of_isPart hA (hpart d hd)).1
  refine ⟨source, hsource, ⟨c, ?_, ?_⟩, ?_⟩
  · simp [hsource, hname]
  · exact hblank c (by simp [hname])
  · rw [hsource]
    apply Blank.trim_eq_self
    · exact fun d hd => hblank d (List.mem_of_mem_head? hd)
    · exact fun d hd => hblank d (List.mem_of_getLast? hd)

end Lexical.Alphabet

/-! ## Templates of one embed -/

namespace Template

/-- A template of one embed with a verb. The reader is run once, and the segment has the verb
without the spaces at its start. -/
theorem split_source_verb {m : Type → Type} [Monad m] [LawfulMonad m] [MonadExcept Fault m]
    (read : Reader m) (source : Source) (hsource : ∃ c ∈ source.text, Blank.isBlank c = false)
    {verb : String} (hverb : Verb.isVerb verb = true) (span : Span) :
    split read (String.ofList ('\\' :: '(' :: (source.text ++ ':' :: verb.toList ++ [')']))) span =
      (do
        let value ← read (String.ofList (Blank.trim source.text))
          ⟨span.start + 2, span.start + 2 + byteCount source.text⟩
        pure [.embed value (some (Verb.unspaced verb))
          ⟨span.start, span.start + (byteCount source.text + byteCount verb.toList + 4)⟩]) := by
  have hclosing := source.closing?_append (Verb.suffix_plain hverb) []
  have hcut : sourceAndVerb (source.text ++ ':' :: verb.toList) =
      (source.text, some (Verb.unspaced verb).toList) := by
    rw [sourceAndVerb, source.lastColon?_verb hverb]
    exact congrArg (fun v => (source.text, some v)) (Verb.trim_eq_unspaced hverb)
  have hunspaced : ∀ v ∈ some (Verb.unspaced verb).toList, Verb.isVerbChars v = true := by
    rintro v ⟨⟩
    exact Verb.isVerb_unspaced hverb
  have hstop : span.start + 2 + byteCount (source.text ++ ':' :: verb.toList) + 1 =
      span.start + (byteCount source.text + byteCount verb.toList + 4) := by
    have hcolon : ':'.utf8Size = 1 := rfl
    rw [byteCount_append, byteCount, hcolon]
    omega
  rw [split, String.toList_ofList, pieces_closing hclosing,
    embed_eq_read hcut hsource hunspaced, hstop]
  simp [pieces, gather]

/-- The format of a template of one embed is the percent sign and the verb. -/
theorem expand_verb (function : String) (value : Expr) {verb : String}
    (hverb : Verb.isVerb verb = true) (place span : Span) :
    expand function [.embed value (some verb) place] span = .ok (.call (Path.reference function)
      [.lit (.string ("%" ++ verb)) span, value] span) := by
  have hformat : format [.embed value (some verb) place] = .ok ('%' :: verb.toList, [value]) :=
    format_embed_eq_ok.mpr ⟨hverb, [], [], rfl, rfl, (List.append_nil _).symm⟩
  have htext : String.ofList ('%' :: verb.toList) = "%" ++ verb := by
    rw [← String.toList_inj]
    simp
  rw [expand, hformat, ← htext]
  rfl

/-- An identifier with any verb is split into one embed, whose verb goes into the format as it
is. It is the verb that was written without the spaces at its start, so it is the same verb exactly
if that did not start with a space. -/
theorem split_expand_verb {A : Lexical.Alphabet} (hA : A.IsVisible) {x v : String}
    (hx : A.isIdentifier x = true) (hv : Verb.isVerb v = true) {read : Reader} {value : Expr}
    (span : Span)
    (hread : read x ⟨span.start + 2, span.start + 2 + byteCount x.toList⟩ = .ok value)
    (function : String) :
    ∃ segment, segment = .embed value (some (Verb.unspaced v))
        ⟨span.start, span.start + (byteCount x.toList + byteCount v.toList + 4)⟩ ∧
      split read ("\\(" ++ x ++ ":" ++ v ++ ")") span = .ok [segment] ∧
      expand function [segment] span = .ok (.call (Path.reference function)
        [.lit (.string ("%" ++ Verb.unspaced v)) span, value] span) ∧
      (Verb.unspaced v = v ↔ v.toList.head? ≠ some ' ') := by
  obtain ⟨source, hsource, hblank, htrim⟩ := Lexical.Alphabet.exists_source hA hx
  have hraw : "\\(" ++ x ++ ":" ++ v ++ ")" =
      String.ofList ('\\' :: '(' :: (source.text ++ ':' :: v.toList ++ [')'])) := by
    rw [← String.toList_inj]
    simp [hsource]
  refine ⟨_, rfl, ?_, expand_verb function value (Verb.isVerb_unspaced hv) _ span,
    Verb.unspaced_eq_self_iff v⟩
  rw [hraw, split_source_verb read source hblank hv, htrim, hsource, String.ofList_toList, hread]
  rfl

/-- An alphabet with one letter outside ASCII. -/
def accented : Lexical.Alphabet := ⟨(· == 'é'), fun _ => false⟩

/-- The letters and digits of `accented` are no blanks. -/
theorem isVisible_accented : accented.IsVisible := by
  rintro c (hc | hc)
  · rw [beq_iff_eq.mp hc]
    rfl
  · cases hc

/-- A reader that takes every source for a name. -/
def nameReader : Reader := fun source place => .ok (.ident source place)

/-- A verb with a blank, flags, a width and a precision is passed on as it is. -/
theorem split_expand_verb_accented :
    ∃ segment, segment = .embed (.ident "été" ⟨12, 17⟩) (some "+ 08.2f") ⟨10, 26⟩ ∧
      split nameReader "\\(été:+ 08.2f)" ⟨10, 26⟩ = .ok [segment] ∧
      expand "fmt.Sprintf" [segment] ⟨10, 26⟩ = .ok (.call (Path.reference "fmt.Sprintf")
        [.lit (.string "%+ 08.2f") ⟨10, 26⟩, .ident "été" ⟨12, 17⟩] ⟨10, 26⟩) := by
  have hx : accented.isIdentifier "été" = true := by decide
  have hv : Verb.isVerb "+ 08.2f" = true := by decide
  have hread : nameReader "été" ⟨12, 17⟩ = .ok (.ident "été" ⟨12, 17⟩) := rfl
  obtain ⟨segment, hsegment, hsplit, hexpand, -⟩ :=
    split_expand_verb isVisible_accented hx hv ⟨10, 26⟩ hread "fmt.Sprintf"
  exact ⟨segment, hsegment, hsplit, hexpand⟩

/-- The space is a flag of the verb ` d`, and it gets lost between the template and its format. -/
theorem split_expand_verb_spaced :
    Verb.isVerb " d" = true ∧ accented.isIdentifier "x" = true ∧
      ∃ segments, split nameReader "\\(x: d)" ⟨0, 7⟩ = .ok segments ∧
        (∀ value place, segments ≠ [.embed value (some " d") place]) ∧
        expand "fmt.Sprintf" segments ⟨0, 7⟩ = .ok (.call (Path.reference "fmt.Sprintf")
          [.lit (.string "%d") ⟨0, 7⟩, .ident "x" ⟨2, 3⟩] ⟨0, 7⟩) := by
  have hverb : Verb.isVerb " d" = true := by decide
  have hsplit := split_source_verb nameReader (.char 'x' rfl .nil) ⟨'x', by decide, by decide⟩
    hverb ⟨0, 7⟩
  refine ⟨hverb, by decide, _, hsplit, ?_, rfl⟩
  intro value place hsegments
  have hverbs : Verb.unspaced " d" = " d" := by
    injection hsegments with hsegment
    injection hsegment with _ hverbs
    injection hverbs
  revert hverbs
  decide

end Template

end Desugar
