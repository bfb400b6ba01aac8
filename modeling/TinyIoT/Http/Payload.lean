/-
What `normalize_payload` leaves of a JSON text. The filter keeps the visible characters of ASCII and the space, so the
layout between the tokens is the only thing it may drop; a byte of a string that stands for itself and is outside that
range is dropped as well, and the string then says something else.
-/
import TinyIoT.Http.JsonReader

namespace TinyIoT

/-- `is_json_valid_char`. -/
def isJsonValidChar (c : Char) : Bool := ('!' ≤ c && c ≤ '~') || c = ' '

/-- `normalize_payload`: the body with the characters that are valid, moved together. -/
def normalizePayload (body : CStr) : CStr := body.filter isJsonValidChar

theorem isJsonValidChar_eq (c : Char) : isJsonValidChar c = JsonText.visible c := by
  unfold isJsonValidChar JsonText.visible
  have hspace : ' '.val.toNat = 32 := rfl
  have hbang : '!'.val.toNat = 33 := rfl
  have htilde : '~'.val.toNat = 126 := rfl
  have heq : c = ' ' ↔ c.val.toNat = 32 := by
    rw [← hspace, UInt32.toNat_inj]
    exact ⟨congrArg Char.val, Char.ext⟩
  rw [Bool.eq_iff_iff]
  simp only [Bool.or_eq_true, Bool.and_eq_true, decide_eq_true_eq, Char.le_def, UInt32.le_iff_toNat_le, heq]
  omega

/-- The text that is left of a document is the text of another one. -/
theorem normalizePayload_print (d : JsonText.Document) :
    normalizePayload d.print = (d.strip isJsonValidChar).print :=
  (JsonText.Document.print_strip (fun c hc => (isJsonValidChar_eq c).trans hc) d).symm

/-- The value read from a payload is the value that was sent exactly where every character of its strings that stands for
itself is visible. -/
theorem normalized_says_same_iff (parse : CStr → Option JsonText.Value) (mean : CStr → CStr) (d : JsonText.Document)
    (hparse : ∀ x ∈ [d, d.strip isJsonValidChar], parse x.print = some (x.text.value mean)) :
    parse (normalizePayload d.print) = parse d.print ↔ d.text.Clean isJsonValidChar := by
  rw [normalizePayload_print, hparse d (by simp), hparse (d.strip isJsonValidChar) (by simp), Option.some.injEq]
  exact JsonText.Text.value_strip_iff d.text

/-- A document without blanks around it. -/
def bareDocument (text : JsonText.Text) : JsonText.Document := ⟨⟨[], by simp⟩, text, ⟨[], by simp⟩⟩

/-- `{"con":<tab>"on", "lbl": [<newline>"a b",7]}`. -/
def laidOut : JsonText.Document :=
  let none : JsonText.Blank := ⟨[], by simp⟩
  let space : JsonText.Blank := ⟨[' '], List.forall_mem_singleton.mpr (by decide)⟩
  let tab : JsonText.Blank := ⟨['\t'], List.forall_mem_singleton.mpr (by decide)⟩
  let newline : JsonText.Blank := ⟨['\n'], List.forall_mem_singleton.mpr (by decide)⟩
  let seven : JsonText.Literal := ⟨['7'], by decide, List.forall_mem_singleton.mpr (by decide)⟩
  bareDocument (.obj (.more none [.plain 'c' (by decide), .plain 'o' (by decide), .plain 'n' (by decide)] none
    tab (.str [.plain 'o' (by decide), .plain 'n' (by decide)]) none
    (.one space [.plain 'l' (by decide), .plain 'b' (by decide), .plain 'l' (by decide)] none space
      (.arr (.more newline (.str [.plain 'a' (by decide), .plain ' ' (by decide), .plain 'b' (by decide)]) none
        (.one none (.word seven) none))) none)))

theorem cjsonParse_laidOut : ∀ x ∈ [laidOut, laidOut.strip isJsonValidChar],
    cjsonParse x.print = some (x.text.value id) := by
  simp only [List.forall_mem_cons, List.not_mem_nil, false_implies, implies_true, and_true]
  exact ⟨rfl, rfl⟩

/-- Its layout goes, and its strings stay. -/
theorem normalized_says_same_iff_laidOut : normalizePayload laidOut.print ≠ laidOut.print ∧
    cjsonParse (normalizePayload laidOut.print) = cjsonParse laidOut.print :=
  ⟨by decide, (normalized_says_same_iff cjsonParse id laidOut cjsonParse_laidOut).mpr (by
    unfold laidOut bareDocument
    simp [JsonText.Text.Clean, JsonText.Members.Clean, JsonText.Items.Clean, JsonText.Piece.kept, isJsonValidChar])⟩

/-- "é", the two bytes of its UTF-8. -/
def eAcute : JsonText.Document := bareDocument (.str [.plain 'Ã' (by decide), .plain '©' (by decide)])

/-- The string "é" is read as the empty one. -/
theorem normalized_differs : ¬ ∀ (parse : CStr → Option JsonText.Value) mean (d : JsonText.Document),
    (∀ x ∈ [d, d.strip isJsonValidChar], parse x.print = some (x.text.value mean)) →
      parse (normalizePayload d.print) = parse d.print := by
  intro h
  have hread : ∀ x ∈ [eAcute, eAcute.strip isJsonValidChar], cjsonParse x.print = some (x.text.value id) := by
    simp only [List.forall_mem_cons, List.not_mem_nil, false_implies, implies_true, and_true]
    exact ⟨rfl, rfl⟩
  have heq := h cjsonParse id eAcute hread
  have hleft : cjsonParse (normalizePayload eAcute.print) = some (.str []) := rfl
  have hright : cjsonParse eAcute.print = some (.str ['Ã', '©']) := rfl
  rw [hleft, hright] at heq
  cases heq

end TinyIoT
