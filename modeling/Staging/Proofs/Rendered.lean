import Staging.Schedule

/-!
# What numbers, shapes and operations are written with

Rendered numbers, shapes and operations hold no line end, no quote and no backslash (`Text.Plain`),
so that a text around them can be taken apart again whatever they are. Names are not of this kind:
they are any text.
-/

namespace Staging

namespace Text

/-- The character neither ends a line nor has a meaning of its own between quotes. -/
def IsPlain (c : Char) : Prop := c ≠ '\n' ∧ c ≠ '"' ∧ c ≠ '\\'

instance (c : Char) : Decidable (IsPlain c) := inferInstanceAs (Decidable (_ ∧ _))

/-- All characters of the text are plain. -/
def Plain (s : String) : Prop := ∀ c ∈ s.toList, IsPlain c

instance (s : String) : Decidable (Plain s) := List.decidableBAll IsPlain s.toList

theorem isPlain_of_isDigit {c : Char} (h : c.isDigit) : IsPlain c := by
  refine ⟨?_, ?_, ?_⟩ <;> rintro rfl <;> exact absurd h (by decide)

theorem plain_ofList {cs : List Char} : Plain (String.ofList cs) ↔ ∀ c ∈ cs, IsPlain c := by
  rw [Plain, String.toList_ofList]

theorem Plain.append {s t : String} (hs : Plain s) (ht : Plain t) : Plain (s ++ t) := by
  intro c hc
  rw [String.toList_append] at hc
  exact (List.mem_append.mp hc).elim (hs c) (ht c)

theorem Plain.intercalate {separator : String} {l : List String} (hs : Plain separator)
    (hl : ∀ s ∈ l, Plain s) : Plain (separator.intercalate l) := by
  induction l with
  | nil => exact String.intercalate_nil ▸ fun _ hc => absurd hc List.not_mem_nil
  | cons s l ih =>
    obtain ⟨hhead, htail⟩ := List.forall_mem_cons.mp hl
    cases l with
    | nil => rwa [String.intercalate_singleton]
    | cons t l =>
      rw [String.intercalate_cons_cons]
      exact (hhead.append hs).append (ih htail)

theorem toList_toString (n : Nat) : (toString n).toList = Nat.toDigits 10 n := by
  rw [Nat.toString_eq_ofList_toDigits, String.toList_ofList]

theorem isDigit_of_mem_toString {n : Nat} {c : Char} (h : c ∈ (toString n).toList) : c.isDigit :=
  Nat.isDigit_of_mem_toDigits (by decide) (by decide) (toList_toString n ▸ h)

theorem plain_toString (n : Nat) : Plain (toString n) :=
  fun _ hc => isPlain_of_isDigit (isDigit_of_mem_toString hc)

end Text

open Text

theorem Shape.plain_render (s : Shape) : Plain s.render := by
  have hdims : Plain (", ".intercalate (s.map toString)) := by
    refine Plain.intercalate (by decide) fun t ht => ?_
    obtain ⟨d, -, rfl⟩ := List.mem_map.mp ht
    exact plain_toString d
  exact (Plain.append (by decide) hdims).append (by decide)

namespace Decimal

theorem isPlain_of_mem_zeros {n : Nat} {c : Char} (h : c ∈ Style.zeros n) : IsPlain c := by
  rw [List.eq_of_mem_replicate h]
  decide

theorem isPlain_of_mem_text {d : Digits} {c : Char} (h : c ∈ d.text) : IsPlain c :=
  isPlain_of_isDigit (Nat.isDigit_of_mem_toDigits (by decide) (by decide) h)

/-- The digits of a number in plain notation, with a point among them or zeros around them. -/
theorem isPlain_of_mem_digitsText {d : Digits} {c : Char} (h : c ∈ Style.plain.digitsText d) :
    IsPlain c := by
  have hpositional : ∀ e, Style.plain.positional e = true := fun _ => rfl
  simp only [Style.digitsText, hpositional, if_true] at h
  split at h
  next =>
    simp only [List.cons_append, List.mem_cons, List.mem_append] at h
    rcases h with rfl | rfl | h | h
    · decide
    · decide
    · exact isPlain_of_mem_zeros h
    · exact isPlain_of_mem_text h
  next =>
    split at h
    next =>
      simp only [List.mem_append] at h
      rcases h with (h | h) | h
      · exact isPlain_of_mem_text h
      · exact isPlain_of_mem_zeros h
      · cases h
    next =>
      simp only [List.mem_append, List.mem_cons] at h
      rcases h with h | rfl | h
      · exact isPlain_of_mem_text (List.mem_of_mem_take h)
      · decide
      · exact isPlain_of_mem_text (List.mem_of_mem_drop h)

theorem Style.plain_render (r : Reading) : Plain (Style.plain.render r) := by
  cases r with
  | nan => decide
  | infinite negative => cases negative <;> decide
  | zero negative => cases negative <;> decide
  | finite negative m =>
    refine plain_ofList.mpr fun c hc => ?_
    cases negative with
    | false => exact isPlain_of_mem_digitsText hc
    | true =>
      rcases List.mem_cons.mp hc with rfl | hc
      · decide
      · exact isPlain_of_mem_digitsText hc

end Decimal

theorem Op.plain_render (op : Op) : Plain op.render := by
  cases op with
  | load op => cases op <;> decide
  | fill value => exact (Plain.append (by decide) (Decimal.Style.plain_render _)).append (by decide)
  | unary op => cases op <;> decide
  | binary op => cases op <;> decide
  | reduce op => cases op <;> decide
  | matmul => decide

end Staging
