/-
Escape sequences in a text.

A sequence goes from the escape character to the next `m`.  What is left without them is
all that a terminal shows of a text whose other characters are printed as they are.  Each of
these is shown in the style the last sequence before it has set.
-/
import Mathlib.Init

namespace Ansi

def escape : Char := Char.ofNat 27

/-- The text without its escape sequences, `inside` one of which it may begin. -/
def strip : (inside : Bool) → List Char → List Char
  | _, [] => []
  | false, c :: rest => if c = escape then strip true rest else c :: strip false rest
  | true, c :: rest => if c = 'm' then strip false rest else strip true rest

/-- An escape sequence with the given content. -/
def sequence (content : List Char) : List Char := escape :: content ++ ['m']

theorem strip_plain {text : List Char} (h : escape ∉ text) (rest : List Char) :
    strip false (text ++ rest) = text ++ strip false rest := by
  induction text with
  | nil => rfl
  | cons c text ih =>
      rw [List.mem_cons, not_or] at h
      rw [List.cons_append, strip, if_neg (Ne.symm h.1), ih h.2]
      rfl

theorem strip_inside {content : List Char} (h : 'm' ∉ content) (rest : List Char) :
    strip true (content ++ 'm' :: rest) = strip false rest := by
  induction content with
  | nil => rw [List.nil_append, strip, if_pos rfl]
  | cons c content ih =>
      rw [List.mem_cons, not_or] at h
      rw [List.cons_append, strip, if_neg (Ne.symm h.1), ih h.2]

theorem strip_sequence {content : List Char} (h : 'm' ∉ content) (rest : List Char) :
    strip false (sequence content ++ rest) = strip false rest := by
  rw [sequence, List.cons_append, List.cons_append, strip, if_pos rfl, List.append_assoc]
  exact strip_inside h rest

/-! ### Styles -/

/-- What a terminal shows, in a style to begin with.  Inside of a sequence it has `seen` some of
the style that is to be set. -/
def render : (seen : Option (List Char)) → (style : List Char) → List Char →
    List (Char × List Char)
  | _, _, [] => []
  | none, style, c :: rest =>
    if c = escape then render (some []) style rest else (c, style) :: render none style rest
  | some seen, style, c :: rest =>
    if c = 'm' then render none seen rest else render (some (seen ++ [c])) style rest

/-- All of a text in one style. -/
def styled (style text : List Char) : List (Char × List Char) := text.map fun c => (c, style)

/-- A text shows these characters, and leaves a style for what comes behind it. -/
def Renders (text style : List Char) (shown : List (Char × List Char)) (style' : List Char) :
    Prop :=
  ∀ rest, render none style (text ++ rest) = shown ++ render none style' rest

namespace Renders

variable {text text' style style' style'' : List Char} {shown shown' : List (Char × List Char)}

theorem nil (style : List Char) : Renders [] style [] style := fun _ => rfl

theorem append (h : Renders text style shown style') (h' : Renders text' style' shown' style'') :
    Renders (text ++ text') style (shown ++ shown') style'' := by
  intro rest
  rw [List.append_assoc, h, h', List.append_assoc]

theorem plain (h : escape ∉ text) : Renders text style (styled style text) style := by
  intro rest
  induction text with
  | nil => rfl
  | cons c text ih =>
      rw [List.mem_cons, not_or] at h
      rw [List.cons_append, render, if_neg (Ne.symm h.1), ih h.2]
      rfl

theorem inside {content : List Char} (h : 'm' ∉ content) (seen rest : List Char) :
    render (some seen) style (content ++ 'm' :: rest) = render none (seen ++ content) rest := by
  induction content generalizing seen with
  | nil => rw [List.nil_append, render, if_pos rfl, List.append_nil]
  | cons c content ih =>
      rw [List.mem_cons, not_or] at h
      rw [List.cons_append, render, if_neg (Ne.symm h.1), ih h.2, List.append_assoc]
      rfl

/-- A sequence sets the style, and shows nothing. -/
theorem sequence {content : List Char} (h : 'm' ∉ content) :
    Renders (sequence content) style [] content := by
  intro rest
  rw [Ansi.sequence, List.cons_append, List.cons_append, render, if_pos rfl, List.append_assoc]
  exact inside h [] rest

/-- All that a text shows. -/
theorem render_eq (h : Renders text style shown style') : render none style text = shown := by
  have hall := h []
  rwa [List.append_nil, render, List.append_nil] at hall

end Renders

end Ansi
