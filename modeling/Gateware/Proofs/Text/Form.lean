import Gateware.Proofs.Text.Word

/-!
# Forms in parentheses

A form is a word, or a head with its items in parentheses and blanks between them.  Words may be
empty and there is no count of the items; still, as long as no word has a blank or a parenthesis,
two forms that print alike are the same.
-/

set_option autoImplicit false

namespace Gateware

/-- A word, or a head and its items in parentheses. -/
inductive Form where
  | word (text : String)
  | node (head : String) (items : List Form)

namespace Form

mutual

def print : Form → List Char
  | .word text => text.toList
  | .node head items => '(' :: (head.toList ++ printItems items)

def printItems : List Form → List Char
  | [] => [')']
  | item :: rest => ' ' :: (item.print ++ printItems rest)

end

/-- A form of solid words. -/
inductive Clear : Form → Prop
  | word {text : String} (solid : Text.Solid text) : Clear (.word text)
  | node {head : String} {items : List Form} (solid : Text.Solid head)
      (below : ∀ item ∈ items, Clear item) : Clear (.node head items)

def Ended (rest : List Char) : Prop := ∀ symbol ∈ rest.head?, symbol = ' ' ∨ symbol = ')'

/-- A form is known by its print, whatever follows. -/
def Readable (form : Form) : Prop :=
  ∀ other rest others, other.Clear → Ended rest → Ended others →
    form.print ++ rest = other.print ++ others → form = other ∧ rest = others

theorem ended_printItems (items : List Form) (rest : List Char) :
    Ended (printItems items ++ rest) := by
  cases items with
  | nil => simp [Ended, printItems]
  | cons item items => simp [Ended, printItems]

theorem Ended.stops {rest : List Char} (ended : Ended rest) :
    ∀ symbol ∈ rest.head?, Text.EndsWord symbol :=
  fun symbol first => (ended symbol first).imp_right Or.inr

theorem solid_ne_open {text : String} {rest items : List Char} (solid : Text.Solid text)
    (ended : Ended rest) : text.toList ++ rest ≠ '(' :: items := by
  intro same
  have apart : text.toList = [] ∧ rest = '(' :: items :=
    append_inj_of_stops solid (by simp) ended.stops (by simp [Text.EndsWord]) same
  have first := ended '(' (by rw [apart.2, List.head?_cons]; rfl)
  simp at first

theorem readable_word {text : String} (solid : Text.Solid text) : (word text).Readable := by
  intro other rest others clear ended otherEnded same
  cases clear with
  | @word otherText otherSolid =>
      obtain ⟨texts, ends⟩ :=
        append_inj_of_stops solid otherSolid ended.stops otherEnded.stops same
      rw [String.toList_inj.mp texts]
      exact ⟨rfl, ends⟩
  | node otherSolid below =>
      rw [print, print, List.cons_append] at same
      exact absurd same (solid_ne_open solid ended)

theorem printItems_inj {items others : List Form} {rest otherRest : List Char}
    (readable : ∀ item ∈ items, item.Readable) (clear : ∀ other ∈ others, other.Clear)
    (same : printItems items ++ rest = printItems others ++ otherRest) :
    items = others ∧ rest = otherRest := by
  induction items generalizing others with
  | nil =>
      cases others with
      | nil => exact ⟨rfl, List.cons.inj same |>.2⟩
      | cons other others => simp [printItems] at same
  | cons item items ih =>
      cases others with
      | nil => simp [printItems] at same
      | cons other others =>
          simp only [printItems, List.cons_append, List.append_assoc, List.cons.injEq,
            true_and] at same
          obtain ⟨rfl, tails⟩ := readable item List.mem_cons_self other _ _
            (clear other List.mem_cons_self) (ended_printItems _ _) (ended_printItems _ _) same
          obtain ⟨rfl, ends⟩ :=
            ih (fun item listed => readable item (List.mem_cons_of_mem _ listed))
              (fun other listed => clear other (List.mem_cons_of_mem _ listed)) tails
          exact ⟨rfl, ends⟩

theorem readable_node {head : String} {items : List Form} (solid : Text.Solid head)
    (readable : ∀ item ∈ items, item.Readable) : (node head items).Readable := by
  intro other rest others clear ended otherEnded same
  cases clear with
  | word otherSolid =>
      rw [print, print, List.cons_append] at same
      exact absurd same.symm (solid_ne_open otherSolid otherEnded)
  | node otherSolid below =>
      simp only [print, List.cons_append, List.append_assoc, List.cons.injEq, true_and] at same
      obtain ⟨heads, tails⟩ := append_inj_of_stops solid otherSolid
        (ended_printItems _ _).stops (ended_printItems _ _).stops same
      obtain ⟨rfl, ends⟩ := printItems_inj readable below tails
      rw [String.toList_inj.mp heads]
      exact ⟨rfl, ends⟩

theorem Clear.readable {form : Form} (clear : form.Clear) : form.Readable := by
  induction clear with
  | word solid => exact readable_word solid
  | node solid _ ih => exact readable_node solid ih

/-- Clear forms that print alike are the same. -/
theorem print_inj {form other : Form} (clear : form.Clear) (otherClear : other.Clear)
    (same : form.print = other.print) : form = other := by
  have nothing : Ended [] := by simp [Ended]
  exact (clear.readable other [] [] otherClear nothing nothing (by rw [same])).1

end Form

end Gateware
