/-
JSON texts with their layout: a tree for every way to write a value, with the blanks around each token and the
characters of each string as they stand in the text. `print` gives the text, `value` what it says. Keeping only some of
the characters of a text, the visible ones among them, leaves the text of another tree, and that tree says the same
exactly where no character of a string is lost.
-/
import Mathlib.Data.List.Basic

namespace JsonText

/-- A visible character of ASCII, or a space. -/
def visible (c : Char) : Bool := ' ' ≤ c && c ≤ '~'

/-- White space between tokens. -/
abbrev Blank := {b : List Char // ∀ c ∈ b, c = ' ' ∨ c = '\t' ∨ c = '\n' ∨ c = '\r'}

/-- A number, `true`, `false` or `null`, as it is written. -/
abbrev Literal := {w : List Char // w ≠ [] ∧ ∀ c ∈ w, c.isAlphanum = true ∨ c = '+' ∨ c = '-' ∨ c = '.'}

/-- An escape sequence, or two for a pair of surrogates, behind the first backslash. -/
abbrev Word := {w : List Char // w ≠ [] ∧ ∀ c ∈ w, visible c = true}

/-- A piece of a string: a character that stands for itself, or an escape sequence, without its backslash. -/
inductive Piece where
  | plain (c : Char) (h : c ≠ '"' ∧ c ≠ '\\' ∧ ' ' ≤ c)
  | escape (w : Word)

mutual

/-- A text without the blanks around it. -/
inductive Text where
  | word (w : Literal)
  | str (s : List Piece)
  | arrNil (b : Blank)
  | arr (items : Items)
  | objNil (b : Blank)
  | obj (members : Members)

/-- The elements of an array, each with the blanks around it. -/
inductive Items where
  | one (b : Blank) (t : Text) (b' : Blank)
  | more (b : Blank) (t : Text) (b' : Blank) (rest : Items)

/-- The members of an object. -/
inductive Members where
  | one (b : Blank) (key : List Piece) (b₁ b₂ : Blank) (t : Text) (b' : Blank)
  | more (b : Blank) (key : List Piece) (b₁ b₂ : Blank) (t : Text) (b' : Blank) (rest : Members)

end

/-- What a text says: a number or another word is kept as it is written. -/
inductive Value where
  | word (w : List Char)
  | str (s : List Char)
  | arr (items : List Value)
  | obj (members : List (List Char × Value))

/-! ## Printing -/

def Piece.print : Piece → List Char
  | plain c _ => [c]
  | escape w => '\\' :: w.1

/-- A string with its quotes. -/
def quote (s : List Piece) : List Char := '"' :: (s.flatMap Piece.print ++ ['"'])

mutual

def Text.print : Text → List Char
  | .word w => w.1
  | .str s => quote s
  | .arrNil b => '[' :: (b.1 ++ [']'])
  | .arr items => '[' :: (items.print ++ [']'])
  | .objNil b => '{' :: (b.1 ++ ['}'])
  | .obj members => '{' :: (members.print ++ ['}'])

def Items.print : Items → List Char
  | .one b t b' => b.1 ++ (t.print ++ b'.1)
  | .more b t b' rest => b.1 ++ (t.print ++ (b'.1 ++ ',' :: rest.print))

def Members.print : Members → List Char
  | .one b key b₁ b₂ t b' => b.1 ++ (quote key ++ (b₁.1 ++ ':' :: (b₂.1 ++ (t.print ++ b'.1))))
  | .more b key b₁ b₂ t b' rest =>
    b.1 ++ (quote key ++ (b₁.1 ++ ':' :: (b₂.1 ++ (t.print ++ (b'.1 ++ ',' :: rest.print)))))

end

/-! ## Meaning -/

section Meaning

variable (mean : List Char → List Char)

/-- The characters a piece stands for; `mean` gives those of an escape sequence. -/
def Piece.value : Piece → List Char
  | plain c _ => [c]
  | escape w => mean w.1

mutual

def Text.value : Text → Value
  | .word w => .word w.1
  | .str s => .str (s.flatMap (Piece.value mean))
  | .arrNil _ => .arr []
  | .arr items => .arr items.values
  | .objNil _ => .obj []
  | .obj members => .obj members.values

def Items.values : Items → List Value
  | .one _ t _ => [t.value]
  | .more _ t _ rest => t.value :: rest.values

def Members.values : Members → List (List Char × Value)
  | .one _ key _ _ t _ => [(key.flatMap (Piece.value mean), t.value)]
  | .more _ key _ _ t _ rest => (key.flatMap (Piece.value mean), t.value) :: rest.values

end

end Meaning

/-! ## Keeping some characters -/

section Keep

variable (keep : Char → Bool)

/-- The piece is kept. -/
def Piece.kept : Piece → Bool
  | plain c _ => keep c
  | escape _ => true

def Blank.strip (b : Blank) : Blank := ⟨b.1.filter keep, fun c hc => b.2 c (List.mem_of_mem_filter hc)⟩

mutual

/-- The tree without the characters that are not kept. -/
def Text.strip : Text → Text
  | .word w => .word w
  | .str s => .str (s.filter (Piece.kept keep))
  | .arrNil b => .arrNil (Blank.strip keep b)
  | .arr items => .arr items.strip
  | .objNil b => .objNil (Blank.strip keep b)
  | .obj members => .obj members.strip

def Items.strip : Items → Items
  | .one b t b' => .one (Blank.strip keep b) t.strip (Blank.strip keep b')
  | .more b t b' rest => .more (Blank.strip keep b) t.strip (Blank.strip keep b') rest.strip

def Members.strip : Members → Members
  | .one b key b₁ b₂ t b' => .one (Blank.strip keep b) (key.filter (Piece.kept keep)) (Blank.strip keep b₁)
      (Blank.strip keep b₂) t.strip (Blank.strip keep b')
  | .more b key b₁ b₂ t b' rest => .more (Blank.strip keep b) (key.filter (Piece.kept keep)) (Blank.strip keep b₁)
      (Blank.strip keep b₂) t.strip (Blank.strip keep b') rest.strip

end

mutual

/-- Every character of a string, and of the name of a member, is kept. -/
def Text.Clean : Text → Prop
  | .word _ => True
  | .str s => ∀ p ∈ s, p.kept keep = true
  | .arrNil _ => True
  | .arr items => items.Clean
  | .objNil _ => True
  | .obj members => members.Clean

def Items.Clean : Items → Prop
  | .one _ t _ => t.Clean
  | .more _ t _ rest => t.Clean ∧ rest.Clean

def Members.Clean : Members → Prop
  | .one _ key _ _ t _ => (∀ p ∈ key, p.kept keep = true) ∧ t.Clean
  | .more _ key _ _ t _ rest => (∀ p ∈ key, p.kept keep = true) ∧ t.Clean ∧ rest.Clean

end

variable {keep}

theorem filter_word (hkeep : ∀ c, visible c = true → keep c = true) (w : Word) : w.1.filter keep = w.1 :=
  List.filter_eq_self.mpr fun c hc => hkeep c (w.2.2 c hc)

theorem visible_of_isAlphanum {c : Char} (h : c.isAlphanum = true) : visible c = true := by
  have halnum : c.isAlphanum = (decide (c.val ≥ 65 ∧ c.val ≤ 90) ||
      (decide (c.val ≥ 97) && decide (c.val ≤ 122)) || (decide (c.val ≥ 48) && decide (c.val ≤ 57))) := rfl
  have hvisible : visible c = (decide ((32 : UInt32) ≤ c.val) && decide (c.val ≤ 126)) := rfl
  rw [halnum] at h
  rw [hvisible]
  simp only [Bool.or_eq_true, Bool.and_eq_true, decide_eq_true_eq, UInt32.le_iff_toNat_le, ge_iff_le] at h ⊢
  simp only [UInt32.reduceToNat] at h ⊢
  omega

theorem filter_literal (hkeep : ∀ c, visible c = true → keep c = true) (w : Literal) : w.1.filter keep = w.1 := by
  refine List.filter_eq_self.mpr fun c hc => hkeep c ?_
  rcases w.2.2 c hc with h | rfl | rfl | rfl
  · exact visible_of_isAlphanum h
  all_goals rfl

theorem filter_piece (hkeep : ∀ c, visible c = true → keep c = true) (p : Piece) :
    p.print.filter keep = if p.kept keep then p.print else [] := by
  cases p with
  | plain c h => cases hc : keep c <;> simp [Piece.print, Piece.kept, hc]
  | escape w =>
    have hslash : keep '\\' = true := hkeep _ (by decide)
    simp only [Piece.print, Piece.kept, if_true]
    rw [List.filter_cons_of_pos hslash, filter_word hkeep]

theorem filter_quote (hkeep : ∀ c, visible c = true → keep c = true) (s : List Piece) :
    (quote s).filter keep = quote (s.filter (Piece.kept keep)) := by
  have hquote : keep '"' = true := hkeep _ (by decide)
  have hpieces : (s.flatMap Piece.print).filter keep = (s.filter (Piece.kept keep)).flatMap Piece.print := by
    induction s with
    | nil => rfl
    | cons p s ih =>
      rw [List.flatMap_cons, List.filter_append, filter_piece hkeep, ih]
      cases hp : p.kept keep with
      | true => rw [List.filter_cons_of_pos hp, List.flatMap_cons, if_pos rfl]
      | false => rw [List.filter_cons_of_neg (by simp [hp]), if_neg (by decide), List.nil_append]
  unfold quote
  rw [List.filter_cons_of_pos hquote, List.filter_append, hpieces, List.filter_cons_of_pos hquote, List.filter_nil]

mutual

/-- The characters that are kept are the text of the tree without the others. -/
theorem Text.print_strip (hkeep : ∀ c, visible c = true → keep c = true) :
    ∀ t : Text, (t.strip keep).print = t.print.filter keep
  | .word w => (filter_literal hkeep w).symm
  | .str s => (filter_quote hkeep s).symm
  | .arrNil b => by
    simp [Text.strip, Text.print, Blank.strip, hkeep '[' (by decide), hkeep ']' (by decide)]
  | .arr items => by
    simp [Text.strip, Text.print, items.print_strip hkeep, hkeep '[' (by decide), hkeep ']' (by decide)]
  | .objNil b => by
    simp [Text.strip, Text.print, Blank.strip, hkeep '{' (by decide), hkeep '}' (by decide)]
  | .obj members => by
    simp [Text.strip, Text.print, members.print_strip hkeep, hkeep '{' (by decide), hkeep '}' (by decide)]

theorem Items.print_strip (hkeep : ∀ c, visible c = true → keep c = true) :
    ∀ items : Items, (items.strip keep).print = items.print.filter keep
  | .one b t b' => by
    simp [Items.strip, Items.print, Blank.strip, t.print_strip hkeep]
  | .more b t b' rest => by
    simp [Items.strip, Items.print, Blank.strip, t.print_strip hkeep, rest.print_strip hkeep, hkeep ',' (by decide)]

theorem Members.print_strip (hkeep : ∀ c, visible c = true → keep c = true) :
    ∀ members : Members, (members.strip keep).print = members.print.filter keep
  | .one b key b₁ b₂ t b' => by
    simp [Members.strip, Members.print, Blank.strip, t.print_strip hkeep, filter_quote hkeep, hkeep ':' (by decide)]
  | .more b key b₁ b₂ t b' rest => by
    simp [Members.strip, Members.print, Blank.strip, t.print_strip hkeep, rest.print_strip hkeep, filter_quote hkeep,
      hkeep ':' (by decide), hkeep ',' (by decide)]

end

variable {mean : List Char → List Char}

/-- A string says the same exactly where nothing of it is lost. -/
theorem value_filter_iff (s : List Piece) :
    (s.filter (Piece.kept keep)).flatMap (Piece.value mean) = s.flatMap (Piece.value mean) ↔
      ∀ p ∈ s, p.kept keep = true := by
  have hle : ∀ s : List Piece, ((s.filter (Piece.kept keep)).flatMap (Piece.value mean)).length ≤
      (s.flatMap (Piece.value mean)).length := by
    intro s
    induction s with
    | nil => exact Nat.le_refl _
    | cons p s ih =>
      cases hp : p.kept keep with
      | true =>
        rw [List.filter_cons_of_pos hp, List.flatMap_cons, List.flatMap_cons, List.length_append, List.length_append]
        omega
      | false =>
        rw [List.filter_cons_of_neg (by simp [hp]), List.flatMap_cons, List.length_append]
        omega
  induction s with
  | nil => simp
  | cons p s ih =>
    rw [List.forall_mem_cons]
    cases hp : p.kept keep with
    | true =>
      rw [List.filter_cons_of_pos hp, List.flatMap_cons, List.flatMap_cons, List.append_cancel_left_eq]
      exact ih.trans (by simp)
    | false =>
      -- a character that is not kept stands for itself
      refine iff_of_false ?_ (by simp)
      cases p with
      | escape w => cases hp
      | plain c h =>
        rw [List.filter_cons_of_neg (by simp [hp]), List.flatMap_cons]
        intro he
        have hlen := congrArg List.length he
        rw [List.length_append] at hlen
        have : ((Piece.plain c h).value mean).length = 1 := rfl
        have := hle s
        omega

mutual

/-- The tree says the same exactly where nothing of its strings is lost. -/
theorem Text.value_strip_iff : ∀ t : Text, (t.strip keep).value mean = t.value mean ↔ t.Clean keep
  | .word w => by simp [Text.strip, Text.Clean]
  | .str s => by
    simp only [Text.strip, Text.value, Text.Clean, Value.str.injEq]
    exact value_filter_iff s
  | .arrNil b => by simp [Text.strip, Text.value, Text.Clean]
  | .arr items => by
    simp only [Text.strip, Text.value, Text.Clean, Value.arr.injEq]
    exact items.values_strip_iff
  | .objNil b => by simp [Text.strip, Text.value, Text.Clean]
  | .obj members => by
    simp only [Text.strip, Text.value, Text.Clean, Value.obj.injEq]
    exact members.values_strip_iff

theorem Items.values_strip_iff : ∀ items : Items, (items.strip keep).values mean = items.values mean ↔ items.Clean keep
  | .one b t b' => by
    simp only [Items.strip, Items.values, Items.Clean, List.cons.injEq, and_true]
    exact t.value_strip_iff
  | .more b t b' rest => by
    simp only [Items.strip, Items.values, Items.Clean, List.cons.injEq]
    exact and_congr t.value_strip_iff rest.values_strip_iff

theorem Members.values_strip_iff :
    ∀ members : Members, (members.strip keep).values mean = members.values mean ↔ members.Clean keep
  | .one b key b₁ b₂ t b' => by
    simp only [Members.strip, Members.values, Members.Clean, List.cons.injEq, Prod.mk.injEq, and_true]
    exact and_congr (value_filter_iff key) t.value_strip_iff
  | .more b key b₁ b₂ t b' rest => by
    simp only [Members.strip, Members.values, Members.Clean, List.cons.injEq, Prod.mk.injEq]
    rw [and_assoc]
    exact and_congr (value_filter_iff key) (and_congr t.value_strip_iff rest.values_strip_iff)

end

end Keep

/-! ## Documents -/

/-- A text with the blanks around it. -/
structure Document where
  before : Blank
  text : Text
  after : Blank

namespace Document

def print (d : Document) : List Char := d.before.1 ++ (d.text.print ++ d.after.1)

def strip (keep : Char → Bool) (d : Document) : Document :=
  ⟨Blank.strip keep d.before, d.text.strip keep, Blank.strip keep d.after⟩

theorem print_strip {keep : Char → Bool} (hkeep : ∀ c, visible c = true → keep c = true) (d : Document) :
    (d.strip keep).print = d.print.filter keep := by
  simp [Document.strip, Document.print, Blank.strip, d.text.print_strip hkeep]

end Document

end JsonText
