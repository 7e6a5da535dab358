import Desugar.Text
import Desugar.Proofs.Template.Split

/-!
# Quoted text is read back

A string literal of the base language can be read as a template. Its escapes are among those of
templates and none of them opens an embed, so the template has the quoted text as its only segment.

- `Quoted.escape_cases` says how a character is written.
- `Quoted.trailing_of_body` finds a backslash that is not itself escaped before every quote of a
  written text.
- `Template.pieces_escape` reads one written character back, whatever stands after it.
-/

namespace Desugar

/-! ## Hexadecimal digits -/

/-- A hexadecimal digit has the value that it was written for. -/
theorem Digit.value?_ofNat : ∀ n < 16, Digit.value? 16 (Digit.ofNat n) = some n := by
  decide

/-- A hexadecimal digit needs no escape. -/
theorem Digit.ofNat_plain : ∀ n < 16, Quoted.isControl (Digit.ofNat n) = false ∧
    Digit.ofNat n ≠ '\\' ∧ Digit.ofNat n ≠ '"' := by
  decide

theorem Digit.hex_two (n : Nat) :
    Digit.hex 2 n = [Digit.ofNat (n / 16 % 16), Digit.ofNat (n % 16)] := rfl

/-- Two hexadecimal digits give the character with their code. -/
theorem Escape.decode_hex {n : Nat} (h : n ≤ byteLimit) (rest : List Char) :
    Escape.decode 'x' (Digit.hex 2 n ++ rest) = (some (Char.ofNat n), rest) := by
  have hcode : n < 128 := Nat.lt_succ_of_le h
  have hvalue : (0 * 16 + n / 16 % 16) * 16 + n % 16 = n := by omega
  have hvalid : n.isValidChar := .inl (by omega)
  have hdigits : Escape.digits 16 2 0 (Digit.hex 2 n ++ rest) = (some n, rest) := by
    simp only [Digit.hex_two, List.cons_append, List.nil_append, Escape.digits,
      Digit.value?_ofNat _ (Nat.mod_lt _ (by decide : 0 < 16)), hvalue]
  simp [Escape.decode, Escape.simple?, Escape.numeric?, hdigits, Escape.charOf?, h, hvalid]

namespace Quoted

/-! ## Written characters -/

/-- The character is written as an escape that is decoded to it. The backslash is followed by
`first` and, if the escape is numeric, by digits. -/
structure Escaped (c first : Char) (digits : List Char) : Prop where
  escape_eq : escape '"' c = '\\' :: first :: digits
  ne_left : first ≠ '('
  visible : isControl first = false
  digits_plain : ∀ d ∈ digits, isControl d = false ∧ d ≠ '\\' ∧ d ≠ '"'
  decode_eq : ∀ rest, Escape.decode first (digits ++ rest) = (some c, rest)

/-- A character stands for itself or is written as an escape. -/
theorem escape_cases (c : Char) :
    (escape '"' c = [c] ∧ c ≠ '\\' ∧ c ≠ '"' ∧ isControl c = false) ∨
      ∃ first digits, Escaped c first digits := by
  by_cases hnamed : c ∈ ['\\', '\n', '\t', '\r', '"']
  · simp only [List.mem_cons, List.not_mem_nil, or_false] at hnamed
    right
    rcases hnamed with rfl | rfl | rfl | rfl | rfl
    · exact ⟨'\\', [], rfl, by decide, rfl, by simp, fun _ => rfl⟩
    · exact ⟨'n', [], rfl, by decide, rfl, by simp, fun _ => rfl⟩
    · exact ⟨'t', [], rfl, by decide, rfl, by simp, fun _ => rfl⟩
    · exact ⟨'r', [], rfl, by decide, rfl, by simp, fun _ => rfl⟩
    · exact ⟨'"', [], rfl, by decide, rfl, by simp, fun _ => rfl⟩
  · simp only [List.mem_cons, List.not_mem_nil, or_false, not_or] at hnamed
    obtain ⟨hbackslash, hline, htab, hreturn, hquote⟩ := hnamed
    have hescape : escape '"' c =
        if isControl c then '\\' :: 'x' :: Digit.hex 2 c.toNat else [c] := by
      simp [escape, hquote]
    by_cases hcontrol : isControl c = true
    · have hcode : c.toNat ≤ Escape.byteLimit := by
        simp only [isControl, Bool.or_eq_true, decide_eq_true_eq, beq_iff_eq] at hcontrol
        unfold Escape.byteLimit
        omega
      refine .inr ⟨'x', Digit.hex 2 c.toNat, ?_, by decide, rfl, ?_, fun rest => ?_⟩
      · rw [hescape, if_pos hcontrol]
      · intro d hd
        simp only [Digit.hex_two, List.mem_cons, List.not_mem_nil, or_false] at hd
        rcases hd with rfl | rfl <;> exact Digit.ofNat_plain _ (Nat.mod_lt _ (by decide))
      · rw [Escape.decode_hex hcode, Char.ofNat_toNat]
    · rw [hescape, if_neg hcontrol]
      exact .inl ⟨rfl, hbackslash, hquote, Bool.eq_false_iff.mpr hcontrol⟩

/-- A written text has no control characters. -/
theorem isControl_of_mem_body {cs : List Char} {c : Char} (hc : c ∈ body '"' cs) :
    isControl c = false := by
  obtain ⟨d, -, hd⟩ := List.mem_flatMap.mp hc
  rcases escape_cases d with ⟨hescape, -, -, hcontrol⟩ | ⟨first, digits, h⟩
  · rw [hescape, List.mem_singleton] at hd
    rwa [hd]
  · rw [h.escape_eq, List.mem_cons, List.mem_cons] at hd
    rcases hd with rfl | rfl | hd
    · rfl
    · exact h.visible
    · exact (h.digits_plain c hd).1

/-! ## Backslashes before quotes -/

/-- The number of backslashes at the end of a text. -/
def trailing (cs : List Char) : Nat := (cs.reverse.takeWhile (· == '\\')).length

/-- Pairs of backslashes at the end of a text do not matter for what is written after it. -/
theorem trailing_append {cs : List Char} (h : trailing cs % 2 = 0) (ds : List Char) :
    trailing (cs ++ ds) % 2 = trailing ds % 2 := by
  unfold trailing at *
  rw [List.reverse_append, List.takeWhile_append]
  split
  · next hall => rw [List.length_append, hall]; omega
  · rfl

/-- A character as it is quoted ends in an even number of backslashes, so that what follows is not
escaped. -/
theorem trailing_escape (c : Char) : trailing (escape '"' c) % 2 = 0 := by
  rcases escape_cases c with ⟨hescape, hbackslash, -, -⟩ | ⟨first, digits, h⟩
  · simp [trailing, hescape, hbackslash]
  · -- the escape ends with a digit, or has two characters of which the second may be a backslash
    rw [h.escape_eq]
    rcases List.eq_nil_or_concat digits with rfl | ⟨front, last, rfl⟩
    · by_cases hfirst : first = '\\'
      · simp [trailing, hfirst]
      · simp [trailing, hfirst]
    · have hlast : last ≠ '\\' := (h.digits_plain last (by simp)).2.1
      simp [trailing, hlast]

/-- The quote in a written character is escaped. -/
theorem before_of_escape {c : Char} {before behind : List Char}
    (h : escape '"' c = before ++ '"' :: behind) : before = ['\\'] := by
  rcases escape_cases c with ⟨hescape, -, hquote, -⟩ | ⟨first, digits, hescaped⟩
  · have hmem : '"' ∈ [c] := hescape ▸ h ▸ by simp
    exact absurd (List.mem_singleton.mp hmem).symm hquote
  · rw [hescaped.escape_eq] at h
    rcases before with _ | ⟨b, _ | ⟨b', before⟩⟩
    · cases h
    · cases h
      rfl
    · cases h
      exact absurd rfl (hescaped.digits_plain '"' (by simp)).2.2

/-- An odd number of backslashes stands before each quote of a written text. -/
theorem trailing_of_body {cs before behind : List Char}
    (h : body '"' cs = before ++ '"' :: behind) : trailing before % 2 = 1 := by
  induction cs generalizing before with
  | nil => simp [body] at h
  | cons c cs ih =>
    rw [body, List.flatMap_cons, ← body, List.append_eq_append_iff] at h
    -- the quote stands after the first written character or in it
    rcases h with ⟨before', rfl, hbody⟩ | ⟨written, hescape, hbehind⟩
    · rw [trailing_append (trailing_escape c), ih hbody]
    · cases written with
      | nil =>
        -- the rest of the text would start with a bare quote
        have hbare : trailing [] % 2 = 1 := ih hbehind.symm
        cases hbare
      | cons w written =>
        cases hbehind
        rw [before_of_escape hescape]
        rfl

end Quoted

/-! ## The scan -/

namespace Template

variable {m : Type → Type} [Monad m] [LawfulMonad m] [MonadExcept Fault m]

/-- A written character is read back, and the scan goes on right after it. -/
theorem pieces_escape (read : Reader m) (stop offset : Nat) (c : Char) (rest : List Char) :
    pieces read stop offset (Quoted.escape '"' c ++ rest) = (.char c :: ·) <$>
      pieces read stop (offset + byteCount (Quoted.escape '"' c)) rest := by
  rcases Quoted.escape_cases c with ⟨hescape, hbackslash, -, -⟩ | ⟨first, digits, h⟩
  · rw [hescape, List.singleton_append, pieces_cons read stop offset hbackslash]
    rfl
  · -- the decoder leaves `rest`, and the offset moves by what it has taken
    have hnext : offset + 1 + first.utf8Size + (byteCount (digits ++ rest) - byteCount rest) =
        offset + byteCount ('\\' :: first :: digits) := by
      have hsize : '\\'.utf8Size = 1 := rfl
      rw [byteCount_append, byteCount, byteCount, hsize]
      omega
    rw [h.escape_eq, List.cons_append, List.cons_append, pieces]
    · simp only [h.decode_eq, hnext, map_eq_pure_bind]
    · exact h.ne_left

/-- A quoted text is split into its characters, without an embed. -/
theorem pieces_body (read : Reader m) (stop offset : Nat) (cs : List Char) :
    pieces read stop offset (Quoted.body '"' cs) = pure (cs.map .char) := by
  induction cs generalizing offset with
  | nil => simp [Quoted.body, pieces]
  | cons c cs ih =>
    rw [Quoted.body, List.flatMap_cons, ← Quoted.body, pieces_escape, ih, map_pure]
    rfl

/-- A quoted text is read back as a template whose only segment is the text, and nothing is read as
an embedded expression. -/
theorem split_quoted (read : Reader m) (text : String) (span : Span) :
    ∃ body, Quoted.string text = "\"" ++ body ++ "\"" ∧
      (∀ c ∈ body.toList, 0x20 ≤ c.toNat ∧ c.toNat ≠ 0x7F) ∧
      (∀ before behind, body.toList = before ++ '"' :: behind →
        Quoted.trailing before % 2 = 1) ∧
      split read body span = pure (if text = "" then [] else [.text text]) := by
  refine ⟨String.ofList (Quoted.body '"' text.toList), ?_, fun c hc => ?_,
    fun before behind h => ?_, ?_⟩
  · simp [Quoted.string, ← String.toList_inj]
  · rw [String.toList_ofList] at hc
    have hcontrol := Quoted.isControl_of_mem_body hc
    simp only [Quoted.isControl, Bool.or_eq_false_iff, decide_eq_false_iff_not, Nat.not_lt,
      beq_eq_false_iff_ne] at hcontrol
    exact hcontrol
  · rw [String.toList_ofList] at h
    exact Quoted.trailing_of_body h
  · have hgather := gather_chars text.toList []
    rw [List.append_nil] at hgather
    simp [split, pieces_body, hgather, consText, gather]

/-- A text that holds what an embed, an escape and the end of a literal look like. -/
theorem split_quoted_deceptive :
    Quoted.string "\\(x) \\n \"\x7f" = "\"\\\\(x) \\\\n \\\"\\x7f\"" ∧
      split (fun _ _ => Except.error (Fault.mk .emptyEmbed ⟨0, 0⟩))
        "\\\\(x) \\\\n \\\"\\x7f" ⟨0, 17⟩ = .ok [.text "\\(x) \\n \"\x7f"] := by
  have hstring : Quoted.string "\\(x) \\n \"\x7f" =
      "\"" ++ "\\\\(x) \\\\n \\\"\\x7f" ++ "\"" := by decide
  obtain ⟨body, hbody, -, -, hsplit⟩ :=
    split_quoted (fun _ _ => Except.error (Fault.mk .emptyEmbed ⟨0, 0⟩))
      "\\(x) \\n \"\x7f" ⟨0, 17⟩
  rw [hstring, String.append_left_inj, String.append_right_inj] at hbody
  subst hbody
  exact ⟨hstring, hsplit⟩

end Template

end Desugar
