import Desugar.Emit.Ty
import Desugar.Proofs.Emit.Token

/-!
# Written types read back

A type is written without parentheses: the tokens of its outermost constructor stand before those
of its parts. The base language reads a `<-` after `chan` as the direction of that channel. So
`chan <-chan T`, which is written for a channel of receive-only channels, is read as a send-only
channel of channels. This is the only way in which a type is not read back.

* `Ty.tokens` are the tokens of the text of a type, see `Ty.exists_spelled`.
* `Ty.Reads` is the grammar of types, and tokens have at most one type in it, `Ty.Reads.unique`.
* `Ty.regrouped` is the type that is read from the text of a type.
* `tyText_reads_back` is the result: which types have the same tokens and what is read from them.
-/

namespace Desugar

open Lexical (Alphabet Token Scans Spells lex grows)

namespace Ty

variable {A : Alphabet}

/-- The type is one of the base language, and all its names are identifiers. -/
def isProper (A : Alphabet) : Ty → Bool
  | named name => A.isIdentifier name
  | array element => element.isProper A
  | map key value => key.isProper A && value.isProper A
  | pointer inner nillable => nillable && inner.isProper A
  | channel inner _ => inner.isProper A
  | option _ | result _ | tuple _ => false

/-- The tokens of a type as it is written. -/
def tokens : Ty → List Token
  | named name => [.ident name]
  | array element => .symbol "[" :: .symbol "]" :: element.tokens
  | map key value => .keyword "map" :: .symbol "[" :: (key.tokens ++ .symbol "]" :: value.tokens)
  | pointer inner _ => .symbol "*" :: inner.tokens
  | channel inner .both => .keyword "chan" :: inner.tokens
  | channel inner .send => .keyword "chan" :: .symbol "<-" :: inner.tokens
  | channel inner .receive => .symbol "<-" :: .keyword "chan" :: inner.tokens
  | option _ | result _ | tuple _ => []

/-! ## The text of a type -/

/-- The text has the tokens of the type, and no `*` before it joins its first one. -/
structure Spelled (A : Alphabet) (text : String) (t : Ty) : Prop where
  spells : Spells A text.toList t.tokens
  apart : ∃ c, text.toList.head? = some c ∧ grows "*" c = false

namespace Spelled

variable {text : String} {t : Ty}

/-- A type name is spelled as it is. -/
theorem named {name : String} (h : A.isIdentifier name = true) : Spelled A name (.named name) := by
  obtain ⟨c, cs, hchars, hc, -⟩ := Alphabet.isIdentifier_iff.mp h
  refine ⟨Lexical.spells_ident h, c, by rw [hchars]; rfl, ?_⟩
  exact Lexical.grows_of_isPart (Bool.or_eq_true_iff.mpr (.inl hc))

theorem array (h : Spelled A text t) : Spelled A ("[]" ++ text) (.array t) := by
  refine ⟨fun rest hrest => ?_, '[', by simp, by decide +kernel⟩
  have hchars : ("[]" ++ text).toList ++ rest =
      "[".toList ++ ("]".toList ++ (text.toList ++ rest)) := by simp
  rw [hchars]
  exact (Scans.bracket (by decide) _).trans
    ((Scans.bracket (by decide) _).trans (h.spells rest hrest))

theorem map {keyText : String} {key : Ty} (hkey : Spelled A keyText key) (h : Spelled A text t) :
    Spelled A ("map[" ++ keyText ++ "]" ++ text) (.map key t) := by
  refine ⟨fun rest hrest => ?_, 'm', by simp, Lexical.grows_of_isPart (A := A) rfl⟩
  have hchars : ("map[" ++ keyText ++ "]" ++ text).toList ++ rest =
      "map".toList ++
        ("[".toList ++ (keyText.toList ++ ("]".toList ++ (text.toList ++ rest)))) := by
    simp
  have htokens : (Ty.map key t).tokens =
      [.keyword "map"] ++ ((.symbol "[" :: (key.tokens ++ [.symbol "]"])) ++ t.tokens) := by
    simp [tokens]
  rw [hchars, htokens]
  refine (Lexical.spells_keyword (by decide) _ (Lexical.parts_symbol (by decide) _)).trans ?_
  exact (hkey.spells.enclosed (by decide) (by decide) _).trans (h.spells rest hrest)

/-- The star of a pointer does not join the first token of its type. -/
theorem pointer (h : Spelled A text t) : Spelled A ("*" ++ text) (.pointer t true) := by
  refine ⟨fun rest hrest => ?_, '*', by simp, by decide +kernel⟩
  have hstar :
      Scans A ("*".toList ++ (text.toList ++ rest)) [.symbol "*"] (text.toList ++ rest) := by
    obtain ⟨c, hc, happart⟩ := h.apart
    refine .symbol (by decide) (by decide) ?_
    rw [List.head?_append, hc]
    rintro d ⟨⟩
    exact happart
  rw [String.toList_append, List.append_assoc]
  exact hstar.trans (h.spells rest hrest)

/-- A `<-` is read apart from a letter or a blank. -/
theorem scans_arrow {rest : List Char}
    (h : ∀ c ∈ rest.head?, A.isPart c = true ∨ c = ' ') :
    Scans A ("<-".toList ++ rest) [.symbol "<-"] rest := by
  refine .symbol (by decide) (by decide) fun c hc => ?_
  rcases h c hc with hpart | rfl
  · exact Lexical.grows_of_isPart hpart
  · exact Lexical.grows_blank _

theorem both (h : Spelled A text t) : Spelled A ("chan " ++ text) (.channel t .both) := by
  refine ⟨fun rest hrest => ?_, 'c', by simp, Lexical.grows_of_isPart (A := A) rfl⟩
  have hchars : ("chan " ++ text).toList ++ rest =
      "chan".toList ++ (" ".toList ++ (text.toList ++ rest)) := by simp
  rw [hchars]
  refine (Lexical.spells_keyword (by decide) _ (Lexical.parts_blank _)).trans ?_
  exact (Scans.blank _).trans (h.spells rest hrest)

theorem send (h : Spelled A text t) : Spelled A ("chan<- " ++ text) (.channel t .send) := by
  refine ⟨fun rest hrest => ?_, 'c', by simp, Lexical.grows_of_isPart (A := A) rfl⟩
  have hchars : ("chan<- " ++ text).toList ++ rest =
      "chan".toList ++ ("<-".toList ++ (" ".toList ++ (text.toList ++ rest))) := by simp
  have harrow : Scans A ("<-".toList ++ (" ".toList ++ (text.toList ++ rest))) [.symbol "<-"]
      (" ".toList ++ (text.toList ++ rest)) := scans_arrow (by rintro c ⟨⟩; exact .inr rfl)
  rw [hchars]
  refine (Lexical.spells_keyword (by decide) _ (Lexical.parts_symbol (by decide) _)).trans ?_
  exact harrow.trans ((Scans.blank _).trans (h.spells rest hrest))

theorem receive (h : Spelled A text t) : Spelled A ("<-chan " ++ text) (.channel t .receive) := by
  refine ⟨fun rest hrest => ?_, '<', by simp, by decide +kernel⟩
  have hchars : ("<-chan " ++ text).toList ++ rest =
      "<-".toList ++ ("chan".toList ++ (" ".toList ++ (text.toList ++ rest))) := by simp
  have harrow : Scans A ("<-".toList ++ ("chan".toList ++ (" ".toList ++ (text.toList ++ rest))))
      [.symbol "<-"] ("chan".toList ++ (" ".toList ++ (text.toList ++ rest))) :=
    scans_arrow (by rintro c ⟨⟩; exact .inl rfl)
  rw [hchars]
  refine harrow.trans ((Lexical.spells_keyword (by decide) _ (Lexical.parts_blank _)).trans ?_)
  exact (Scans.blank _).trans (h.spells rest hrest)

end Spelled

/-- A proper type has a text, whose tokens are those of the type. -/
theorem exists_spelled : ∀ {t : Ty}, t.isProper A = true →
    ∃ text, Emit.tyText t = .ok text ∧ Spelled A text t
  | .named name, h => ⟨name, rfl, .named h⟩
  | .array element, h => by
    obtain ⟨text, htext, hspelled⟩ := exists_spelled (t := element) h
    exact ⟨_, by rw [Emit.tyText, htext]; rfl, hspelled.array⟩
  | .map key value, h => by
    obtain ⟨hkey, hvalue⟩ := Bool.and_eq_true_iff.mp h
    obtain ⟨keyText, hkeyText, hkeySpelled⟩ := exists_spelled hkey
    obtain ⟨text, htext, hspelled⟩ := exists_spelled hvalue
    exact ⟨_, by rw [Emit.tyText, hkeyText, htext]; rfl, hkeySpelled.map hspelled⟩
  | .pointer inner true, h => by
    obtain ⟨text, htext, hspelled⟩ := exists_spelled (t := inner) h
    exact ⟨_, by rw [Emit.tyText, htext]; rfl, hspelled.pointer⟩
  | .channel inner direction, h => by
    obtain ⟨text, htext, hspelled⟩ := exists_spelled (t := inner) h
    cases direction with
    | both => exact ⟨_, by rw [Emit.tyText, htext]; rfl, hspelled.both⟩
    | send => exact ⟨_, by rw [Emit.tyText, htext]; rfl, hspelled.send⟩
    | receive => exact ⟨_, by rw [Emit.tyText, htext]; rfl, hspelled.receive⟩

/-! ## The grammar of types -/

/-- The tokens are a type. A `<-` belongs to the leftmost `chan` that it can belong to, so the
elements of a channel without direction do not begin with one. -/
inductive Reads : List Token → Ty → Prop where
  | named {name} : Reads [.ident name] (.named name)
  | parens {tokens t} (inner : Reads tokens t) :
    Reads (.symbol "(" :: (tokens ++ [.symbol ")"])) t
  | array {tokens t} (element : Reads tokens t) :
    Reads (.symbol "[" :: .symbol "]" :: tokens) (.array t)
  | map {keyTokens tokens k v} (key : Reads keyTokens k) (value : Reads tokens v) :
    Reads (.keyword "map" :: .symbol "[" :: (keyTokens ++ .symbol "]" :: tokens)) (.map k v)
  | pointer {tokens t} (inner : Reads tokens t) : Reads (.symbol "*" :: tokens) (.pointer t true)
  | both {tokens t} (inner : Reads tokens t) (harrow : tokens.head? ≠ some (.symbol "<-")) :
    Reads (.keyword "chan" :: tokens) (.channel t .both)
  | send {tokens t} (inner : Reads tokens t) :
    Reads (.keyword "chan" :: .symbol "<-" :: tokens) (.channel t .send)
  | receive {tokens t} (inner : Reads tokens t) :
    Reads (.symbol "<-" :: .keyword "chan" :: tokens) (.channel t .receive)

namespace Reads

variable {first second rest rest' : List Token} {t u : Ty}

theorem ne_nil (h : Reads first t) : first ≠ [] := by
  cases h <;> simp

/-- The elements of a channel without direction are told from the `<-` of a send-only one. -/
theorem not_arrow (h : Reads first t) (harrow : first.head? ≠ some (.symbol "<-"))
    (heq : first ++ rest = .symbol "<-" :: rest') : False := by
  obtain ⟨token, tokens, rfl⟩ := List.exists_cons_of_ne_nil h.ne_nil
  cases heq
  exact harrow rfl

/-- Two types at the same place are the same, and so is what follows them. -/
theorem prefix_unique (h : Reads first t) (h' : Reads second u)
    (heq : first ++ rest = second ++ rest') : t = u ∧ rest = rest' := by
  -- the first two tokens tell the constructor of either type
  induction h generalizing second u rest rest' with
  | named =>
    cases h' with
    | named => simpa using heq
    | _ => simp at heq
  | parens _ ih =>
    cases h' with
    | parens hinner =>
      simp only [List.cons_append, List.append_assoc, List.cons.injEq, true_and] at heq
      obtain ⟨rfl, hrest⟩ := ih hinner heq
      exact ⟨rfl, by simpa using hrest⟩
    | _ => simp at heq
  | array _ ih =>
    cases h' with
    | array helement =>
      simp only [List.cons_append, List.cons.injEq, true_and] at heq
      obtain ⟨rfl, hrest⟩ := ih helement heq
      exact ⟨rfl, hrest⟩
    | _ => simp at heq
  | map _ _ ihkey ihvalue =>
    cases h' with
    | map hkey hvalue =>
      simp only [List.cons_append, List.append_assoc, List.cons.injEq, true_and] at heq
      obtain ⟨rfl, hrest⟩ := ihkey hkey heq
      obtain ⟨rfl, hrest⟩ := ihvalue hvalue (List.cons.inj hrest).2
      exact ⟨rfl, hrest⟩
    | _ => simp at heq
  | pointer _ ih =>
    cases h' with
    | pointer hinner =>
      simp only [List.cons_append, List.cons.injEq, true_and] at heq
      obtain ⟨rfl, hrest⟩ := ih hinner heq
      exact ⟨rfl, hrest⟩
    | _ => simp at heq
  | both hinner harrow ih =>
    cases h' with
    | both hinner' _ =>
      simp only [List.cons_append, List.cons.injEq, true_and] at heq
      obtain ⟨rfl, hrest⟩ := ih hinner' heq
      exact ⟨rfl, hrest⟩
    | send _ =>
      simp only [List.cons_append, List.cons.injEq, true_and] at heq
      exact (hinner.not_arrow harrow heq).elim
    | _ => simp at heq
  | send _ ih =>
    cases h' with
    | send hinner =>
      simp only [List.cons_append, List.cons.injEq, true_and] at heq
      obtain ⟨rfl, hrest⟩ := ih hinner heq
      exact ⟨rfl, hrest⟩
    | both hinner harrow =>
      simp only [List.cons_append, List.cons.injEq, true_and] at heq
      exact (hinner.not_arrow harrow heq.symm).elim
    | _ => simp at heq
  | receive _ ih =>
    cases h' with
    | receive hinner =>
      simp only [List.cons_append, List.cons.injEq, true_and] at heq
      obtain ⟨rfl, hrest⟩ := ih hinner heq
      exact ⟨rfl, hrest⟩
    | _ => simp at heq

/-- Tokens are read as at most one type. -/
theorem unique (h : Reads first t) (h' : Reads first u) : t = u :=
  (h.prefix_unique h' (rfl : first ++ [] = first ++ [])).1

end Reads

/-! ## What is read from a type -/

/-- The type that is read where `chan` stands before a type: it takes the `<-` of a receive-only
channel, and the `chan` after that stands before the elements of that channel. -/
def afterChan : Ty → Ty
  | channel inner .receive => channel inner.afterChan .send
  | t => channel t .both

/-- The type that is read from the text of a type. -/
def regrouped : Ty → Ty
  | array element => array element.regrouped
  | map key value => map key.regrouped value.regrouped
  | pointer inner nillable => pointer inner.regrouped nillable
  | channel inner .both => inner.regrouped.afterChan
  | channel inner direction => channel inner.regrouped direction
  | t => t

/-- The type is a receive-only channel. -/
def isReceive : Ty → Bool
  | channel _ .receive => true
  | _ => false

/-- No channel without direction has receive-only channels as its elements. -/
def isApart : Ty → Bool
  | array element => element.isApart
  | map key value => key.isApart && value.isApart
  | pointer inner _ => inner.isApart
  | channel inner direction => inner.isApart && (direction != .both || !inner.isReceive)
  | _ => true

/-- After `chan`, a type that is no receive-only channel is the type of the elements. -/
theorem afterChan_of_isReceive_eq_false {t : Ty} (h : t.isReceive = false) :
    t.afterChan = channel t .both := by
  unfold afterChan
  split
  · cases h
  · rfl

/-- After `chan`, the `<-` of a receive-only channel makes a send-only one. -/
theorem afterChan_of_isReceive {t : Ty} (h : t.isReceive = true) :
    ∃ inner, t.afterChan = channel inner .send := by
  unfold isReceive at h
  split at h
  · exact ⟨_, rfl⟩
  · cases h

/-- A channel that begins with `chan` is not receive-only. -/
theorem isReceive_afterChan (t : Ty) : t.afterChan.isReceive = false := by
  unfold afterChan
  split <;> rfl

/-- Regrouping keeps the direction of a receive-only channel. -/
theorem isReceive_regrouped (t : Ty) : t.regrouped.isReceive = t.isReceive := by
  unfold regrouped
  split
  case h_4 => exact isReceive_afterChan _
  case h_5 direction _ => cases direction <;> rfl
  all_goals rfl

/-- Regrouping after `chan` keeps the tokens. -/
theorem tokens_afterChan (t : Ty) : t.afterChan.tokens = .keyword "chan" :: t.tokens := by
  fun_induction afterChan t with
  | case1 inner ih => simp [tokens, ih]
  | case2 t => rfl

/-- Regrouping leaves the tokens as they are. -/
theorem tokens_regrouped (t : Ty) : t.regrouped.tokens = t.tokens := by
  fun_induction regrouped t with
  | case1 element ih => simp [tokens, ih]
  | case2 key value ihkey ihvalue => simp [tokens, ihkey, ihvalue]
  | case3 inner nillable ih => simp [tokens, ih]
  | case4 inner ih => rw [tokens_afterChan, ih, tokens]
  | case5 inner direction _ ih => cases direction <;> simp [tokens, ih]
  | case6 t => rfl

/-- A type is read as it was written if and only if it is apart. -/
theorem regrouped_eq_self_iff (t : Ty) : t.regrouped = t ↔ t.isApart = true := by
  fun_induction regrouped t with
  | case1 element ih => simp [isApart, ih]
  | case2 key value ihkey ihvalue => simp [isApart, ihkey, ihvalue]
  | case3 inner nillable ih => simp [isApart, ih]
  | case4 inner ih =>
    have hregrouped := isReceive_regrouped inner
    cases hreceive : inner.isReceive with
    | false =>
      rw [afterChan_of_isReceive_eq_false (hregrouped.trans hreceive)]
      simp [isApart, ih, hreceive]
    | true =>
      obtain ⟨sent, hsent⟩ := afterChan_of_isReceive (hregrouped.trans hreceive)
      simp [isApart, hsent, hreceive]
  | case5 inner direction hboth ih =>
    have hdirection : direction ≠ .both := hboth
    simp [isApart, ih, hdirection]
  | case6 t => cases t <;> simp_all [isApart]

/-- Unless it begins with `<-`, a type is read as a whole after `chan`. -/
theorem Reads.afterChan {tokens : List Token} {t : Ty} (h : Reads tokens t)
    (harrow : tokens.head? ≠ some (.symbol "<-")) (hreceive : t.isReceive = false) :
    Reads (.keyword "chan" :: tokens) t.afterChan := by
  rw [afterChan_of_isReceive_eq_false hreceive]
  exact h.both harrow

/-- The tokens of a type are read as the regrouped type, and so they are after `chan`. -/
theorem reads_tokens : ∀ {t : Ty}, t.isProper A = true →
    Reads t.tokens t.regrouped ∧ Reads (.keyword "chan" :: t.tokens) t.regrouped.afterChan
  | .named _, _ => ⟨.named, Reads.named.afterChan (by simp) rfl⟩
  | .array element, h => by
    have hreads := (reads_tokens (t := element) h).1.array
    exact ⟨hreads, hreads.afterChan (by simp) rfl⟩
  | .map key value, h => by
    obtain ⟨hkey, hvalue⟩ := Bool.and_eq_true_iff.mp h
    have hreads := (reads_tokens hkey).1.map (reads_tokens hvalue).1
    exact ⟨hreads, hreads.afterChan (by simp) rfl⟩
  | .pointer inner true, h => by
    have hreads := (reads_tokens (t := inner) h).1.pointer
    exact ⟨hreads, hreads.afterChan (by simp) rfl⟩
  | .channel inner .both, h => by
    obtain ⟨-, hreads⟩ := reads_tokens (t := inner) h
    exact ⟨hreads, hreads.afterChan (by simp) (isReceive_afterChan _)⟩
  | .channel inner .send, h => by
    have hreads := (reads_tokens (t := inner) h).1.send
    exact ⟨hreads, hreads.afterChan (by simp) rfl⟩
  | .channel inner .receive, h => by
    -- the `chan` before the type takes its `<-`, and the `chan` of the type comes next
    obtain ⟨halone, hafter⟩ := reads_tokens (t := inner) h
    exact ⟨halone.receive, hafter.send⟩

end Ty

open Ty (Reads)

/-- **The texts of types.** Two types have the same tokens if and only if they are the same once
every `chan` has taken the `<-` after it, and the tokens of a type are read as that type and no
other. So the text of a type tells the type, unless a channel without direction has receive-only
channels as its elements. -/
theorem tyText_reads_back (A : Alphabet) {t u : Ty} (ht : t.isProper A = true)
    (hu : u.isProper A = true) :
    ∃ text text' tokens tokens', Emit.tyText t = .ok text ∧ Emit.tyText u = .ok text' ∧
      lex A text.toList = some tokens ∧ lex A text'.toList = some tokens' ∧
      (∀ v, Reads tokens v ↔ v = t.regrouped) ∧ (t.regrouped = t ↔ t.isApart = true) ∧
      (tokens = tokens' ↔ t.regrouped = u.regrouped) ∧
      (t.isApart = true → u.isApart = true → tokens = tokens' → t = u) := by
  obtain ⟨text, htext, hspelled⟩ := Ty.exists_spelled ht
  obtain ⟨text', htext', hspelled'⟩ := Ty.exists_spelled hu
  obtain ⟨hreads, -⟩ := Ty.reads_tokens ht
  obtain ⟨hreads', -⟩ := Ty.reads_tokens hu
  have hsame : t.tokens = u.tokens ↔ t.regrouped = u.regrouped := by
    constructor
    · intro htokens
      rw [htokens] at hreads
      exact hreads.unique hreads'
    · intro hregrouped
      rw [← t.tokens_regrouped, hregrouped, u.tokens_regrouped]
  refine ⟨text, text', t.tokens, u.tokens, htext, htext', hspelled.spells.lex_eq,
    hspelled'.spells.lex_eq, fun v => ⟨fun hv => hv.unique hreads, ?_⟩, t.regrouped_eq_self_iff,
    hsame, fun hapart hapart' htokens => ?_⟩
  · rintro rfl
    exact hreads
  · rw [← t.regrouped_eq_self_iff.mpr hapart, hsame.mp htokens, u.regrouped_eq_self_iff.mpr hapart']

/-- The letters and digits of ASCII. -/
def asciiAlphabet : Alphabet := ⟨fun _ => false, fun _ => false⟩

/-- `map[string]<-chan chan<- *int` -/
def routes : Ty :=
  .map (.named "string")
    (.channel (.channel (.pointer (.named "int") true) .send) .receive)

/-- A channel of receive-only channels. -/
def replies : Ty := .channel (.channel (.named "int") .receive) .both

/-- A send-only channel of channels. -/
def requests : Ty := .channel (.channel (.named "int") .both) .send

/-- The type `routes` is read back as it is. -/
theorem tyText_reads_back_routes :
    Emit.tyText routes = .ok "map[string]<-chan chan<- *int" ∧
      Emit.tyText replies = .ok "chan <-chan int" ∧
      routes.isProper asciiAlphabet = true ∧ replies.isProper asciiAlphabet = true ∧
      ∃ text text' tokens tokens', Emit.tyText routes = .ok text ∧ Emit.tyText replies = .ok text' ∧
        lex asciiAlphabet text.toList = some tokens ∧
        lex asciiAlphabet text'.toList = some tokens' ∧
        (∀ v, Reads tokens v ↔ v = routes) ∧ tokens ≠ tokens' := by
  have hroutes : routes.isProper asciiAlphabet = true := by decide +kernel
  have hreplies : replies.isProper asciiAlphabet = true := by decide +kernel
  obtain ⟨text, text', tokens, tokens', htext, htext', hlex, hlex', hreads, -, hsame, -⟩ :=
    tyText_reads_back asciiAlphabet hroutes hreplies
  refine ⟨rfl, rfl, hroutes, hreplies, text, text', tokens, tokens', htext, htext', hlex, hlex',
    hreads, fun htokens => ?_⟩
  cases hsame.mp htokens

/-- The two types are different and have the same tokens, which are read as the second one. -/
theorem tyText_reads_back_replies :
    replies.isProper asciiAlphabet = true ∧ requests.isProper asciiAlphabet = true ∧
      replies ≠ requests ∧
      ∃ text text' tokens, Emit.tyText replies = .ok text ∧ Emit.tyText requests = .ok text' ∧
        lex asciiAlphabet text.toList = some tokens ∧
        lex asciiAlphabet text'.toList = some tokens ∧ Reads tokens requests := by
  have hreplies : replies.isProper asciiAlphabet = true := by decide +kernel
  have hrequests : requests.isProper asciiAlphabet = true := by decide +kernel
  have hne : replies ≠ requests := by
    intro h
    cases h
  obtain ⟨text, htext, hspelled⟩ := Ty.exists_spelled hreplies
  obtain ⟨text', htext', hspelled'⟩ := Ty.exists_spelled hrequests
  exact ⟨hreplies, hrequests, hne, text, text', requests.tokens, htext, htext',
    hspelled.spells.lex_eq, hspelled'.spells.lex_eq, (Ty.reads_tokens hrequests).1⟩

end Desugar
