import RouteDesk.Catalog.Store
import RouteDesk.Proofs.Json.Positions
import RouteDesk.Proofs.Json.Spacing.Remarks

/-! Settings files with comments. Between the tokens of a document comments change nothing about
what a file holds. The place in an error message is counted in the text with its comments blanked,
and block comments are blanked with their line breaks.
-/

namespace RouteDesk

open Json Json.Comments

namespace SettingsFile

-----------------------------------------------------------------------------------------
-- What a file with comments holds
-----------------------------------------------------------------------------------------

/-- A settings file with comments between the tokens of its text holds the document that a file
without them holds, and that is the document that a reader makes of the plain text who knows no
comments.
-/
theorem document_of_interspersed {original changed : SettingsFile} {plain text : String}
    {document : Json} (reads : original.tree.readText original.path = .ok plain)
    (given : Text.isAllBlank plain = false) (loads : original.document = .ok document)
    (holds : changed.tree.readText changed.path = .ok text)
    (inserted : Interspersed .between (Bytes.ofText plain) (Bytes.ofText text))
    : ofFeed (Feed.ofBytes (Bytes.ofText plain)) = .ok document
      ∧ changed.document = .ok document := by
  have read : ofCommented (Bytes.ofText plain) = .ok document := by
    rw [SettingsFile.document, reads] at loads
    simp only [given, Bool.false_eq_true, if_false] at loads
    split at loads
    case h_1 held found => rw [found, Except.ok.inj loads]
    case h_2 => cases loads
  obtain ⟨asPlain, withComments⟩ := ofCommented_of_interspersed inserted read
  refine ⟨asPlain, ?_⟩
  have notBlank : Text.isAllBlank text = false := by
    by_contra blank
    obtain ⟨error, refused, -⟩ :=
      ofCommented_of_isRemarks (isRemarks_of_isAllBlank (Bool.not_eq_false _ ▸ blank))
    exact absurd (withComments.symm.trans refused) nofun
  rw [SettingsFile.document, holds]
  simp only [notBlank, withComments, Bool.false_eq_true, if_false]

/-- A settings file that holds a text. -/
def holding (text : String) : SettingsFile :=
  let path := Path.ofText "/settings.json"
  ⟨path, ((FileChange.write path (Bytes.ofText text)).apply {}).1⟩

/-- A document whose text has what looks like comments in a string, behind escapes. -/
def bare : String :=
  "\x7b\"a\": \"/* \\\" // # \\\\\", \"n\": 12\x7d"

/-- The same document with comments of every kind. -/
def furnished : String :=
  "/**/\x7b\"a\":/* x **/ \"/* \\\" // # \\\\\", # \"q\"\n\"n\"//\n: 12/*/*/\x7d// end"

theorem interspersed_furnished
    : Interspersed .between (Bytes.ofText bare) (Bytes.ofText furnished) := by
  have number : Interspersed .between (Bytes.ofText ": 12\x7d")
      (Bytes.ofText ": 12/*/*/\x7d// end") := by
    have brace : Interspersed .word (Bytes.ofText "\x7d") (Bytes.ofText "\x7d// end") :=
      .stretch (Bytes.ofText "\x7d") rfl
        (@Interspersed.line _ [0x2F, 0x2F] (Bytes.ofText " end") _ [] (.inl rfl) (.inl rfl)
          (by decide) (.inl rfl) .done)
    exact .stretch (Bytes.ofText ": 12") rfl
      (@Interspersed.block _ [0x2F] _ _ (.inr ⟨rfl, fun _ same => Option.some.inj same ▸ rfl⟩)
        (by decide) brace)
  have second : Interspersed .between (Bytes.ofText "\"n\": 12\x7d")
      (Bytes.ofText "# \"q\"\n\"n\"//\n: 12/*/*/\x7d// end") := by
    have name : Interspersed .between (Bytes.ofText "\"n\": 12\x7d")
        (Bytes.ofText "\"n\"//\n: 12/*/*/\x7d// end") :=
      .stretch (Bytes.ofText "\"n\"") rfl
        (@Interspersed.line _ [0x2F, 0x2F] [] _ _ (.inl rfl) (.inl rfl) (by decide) (.inr rfl)
          (.blank rfl (.inl rfl) number))
    exact @Interspersed.line _ [0x23] (Bytes.ofText " \"q\"") _ _ (.inl rfl) (.inr rfl)
      (by decide) (.inr rfl) (.blank rfl (.inl rfl) name)
  exact @Interspersed.block _ [] _ _ (.inl rfl) (by decide)
    (.stretch (Bytes.ofText "\x7b\"a\":") rfl
      (@Interspersed.block _ (Bytes.ofText " x *") _ _ (.inl rfl) (by decide)
        (.stretch (Bytes.ofText " \"/* \\\" // # \\\\\", ") rfl second)))

/-- Comments of every kind, one of them right behind a number, leave the document as it is. -/
theorem document_of_interspersed_furnished
    : let held : Json := .object [("a", .text "/* \" // # \\"), ("n", .integer 12)]
      (holding bare).tree.readText (holding bare).path = .ok bare
      ∧ Text.isAllBlank bare = false
      ∧ (holding bare).document = .ok held
      ∧ (holding furnished).tree.readText (holding furnished).path = .ok furnished
      ∧ Interspersed .between (Bytes.ofText bare) (Bytes.ofText furnished)
      ∧ ofFeed (Feed.ofBytes (Bytes.ofText bare)) = .ok held
      ∧ (holding furnished).document = .ok held := by
  intro held
  have reads : (holding bare).tree.readText (holding bare).path = .ok bare := rfl
  have given : Text.isAllBlank bare = false := rfl
  have loads : (holding bare).document = .ok held := rfl
  have holds : (holding furnished).tree.readText (holding furnished).path = .ok furnished := rfl
  exact ⟨reads, given, loads, holds, interspersed_furnished,
    document_of_interspersed reads given loads holds interspersed_furnished⟩

-----------------------------------------------------------------------------------------
-- Where an error stands
-----------------------------------------------------------------------------------------

/-- The place in the message of a settings file that holds no document is the one at which the
reader stopped in the text with its comments blanked, and it is the one in the text itself unless
blanking has displaced it.
-/
theorem locates_of_document {file : SettingsFile} {text : String} {refusal : Refusal}
    {position : Position} (read : file.tree.readText file.path = .ok text)
    (refused : file.document = .error (.malformed file.path ⟨refusal, some position⟩))
    : (∃ front, StoppedAfter (Bytes.ofText text) refusal front)
      ∧ ∀ front, StoppedAfter (Bytes.ofText text) refusal front →
          Locates refusal position front := by
  apply locates_of_ofCommented
  unfold document at refused
  rw [read] at refused
  dsimp only at refused
  split at refused
  case isTrue => cases refused
  case isFalse =>
    cases found : ofCommented (Bytes.ofText text) with
    | ok document =>
        rw [found] at refused
        cases refused
    | error reason =>
        rw [found] at refused
        obtain ⟨-, rfl⟩ := StoreError.malformed.inj (Except.error.inj refused)
        rfl

/-- Comments that stand in one line each, one of them with a character of several bytes. -/
def remarked : String := "// top\n\x7b /* \u20AC */ \"a\" 1\x7d"

/-- Behind comments in one line each the place is exact. -/
theorem locates_of_document_remarked
    : (holding remarked).tree.readText (holding remarked).path = .ok remarked
      ∧ (holding remarked).document
        = .error (.malformed (holding remarked).path ⟨.expectedColon, some ⟨2, 17⟩⟩)
      ∧ (∃ front, StoppedAfter (Bytes.ofText remarked) .expectedColon front)
      ∧ ∀ front, StoppedAfter (Bytes.ofText remarked) .expectedColon front →
          Locates .expectedColon ⟨2, 17⟩ front := by
  have read : (holding remarked).tree.readText (holding remarked).path = .ok remarked := rfl
  have refused : (holding remarked).document
      = .error (.malformed (holding remarked).path ⟨.expectedColon, some ⟨2, 17⟩⟩) := rfl
  exact ⟨read, refused, locates_of_document read refused⟩

/-- A line break in a block comment displaces the place: the byte at which the reader stops is the
third one of the second line.
-/
theorem misplaced_block
    : (holding "[0/*\n*/1]").document
        = .error (.malformed (Path.ofText "/settings.json") ⟨.expectedListEnd, some ⟨1, 8⟩⟩)
      ∧ StoppedAfter (Bytes.ofText "[0/*\n*/1]") .expectedListEnd (Bytes.ofText "[0/*\n*/1")
      ∧ Position.after (Bytes.ofText "[0/*\n*/1") = ⟨2, 3⟩ := by
  refine ⟨rfl, ⟨⟨[0x5D], rfl⟩, ⟨_, rfl⟩, ?_⟩, rfl⟩
  exact showsLast_concat (Bytes.ofText "[0/*\n*/") (by decide)

end SettingsFile

end RouteDesk
