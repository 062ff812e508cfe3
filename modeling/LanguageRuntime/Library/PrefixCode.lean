import Mathlib.Data.List.Basic

/-!
# Codes that can be read back

A code writes a value as a text. `ReadsBack code x` says that the text of `x` tells where it
ends and what it was, whatever is written after it, against the text of any other value.
The rules follow the ways in which a text is put together: a field closed by a mark, fields
in a row, a list whose length is known.
-/

namespace LanguageRuntime.Library

variable {α β γ : Type}

/-- A text that begins with the text of `x` and with the text of `y` is a text of `x = y`. -/
def ReadsBack (code : α → List γ) (x : α) : Prop :=
  ∀ y rest rest', code x ++ rest = code y ++ rest' → x = y ∧ rest = rest'

/-- The symbols before the first mark are the same in two equal texts. -/
theorem eq_of_append_mark {p : γ → Prop} {mark mark' : γ} (hmark : ¬p mark)
    (hmark' : ¬p mark') : ∀ {xs ys rest rest' : List γ}, (∀ x ∈ xs, p x) → (∀ y ∈ ys, p y) →
    xs ++ mark :: rest = ys ++ mark' :: rest' → xs = ys ∧ mark :: rest = mark' :: rest'
  | [], [], _, _, _, _, h => ⟨rfl, h⟩
  | [], y :: _, _, _, _, hys, h => by
    have hhead : mark = y := (List.cons.inj h).1
    exact absurd (hys y List.mem_cons_self) (hhead ▸ hmark)
  | x :: _, [], _, _, hxs, _, h => by
    have hhead : x = mark' := (List.cons.inj h).1
    exact absurd (hxs x List.mem_cons_self) (hhead ▸ hmark')
  | x :: xs, y :: ys, _, _, hxs, hys, h => by
    rw [List.forall_mem_cons] at hxs hys
    have htail := eq_of_append_mark hmark hmark' hxs.2 hys.2 (List.cons.inj h).2
    rw [(List.cons.inj h).1, htail.1]
    exact ⟨rfl, htail.2⟩

namespace ReadsBack

variable {code : α → List γ} {code' : β → List γ} {x : α}

/-- A field over the symbols with `p`, closed by a mark without it. -/
theorem closed {p : γ → Prop} {mark : γ} (hinjective : Function.Injective code)
    (hsymbols : ∀ x, ∀ symbol ∈ code x, p symbol) (hmark : ¬p mark) :
    ReadsBack (fun x => code x ++ [mark]) x := by
  intro y rest rest' h
  simp only [List.append_assoc, List.singleton_append] at h
  have hfield := eq_of_append_mark hmark hmark (hsymbols x) (hsymbols y) h
  exact ⟨hinjective hfield.1, (List.cons.inj hfield.2).2⟩

/-- Two fields in a row. -/
theorem pair {x' : β} (h : ReadsBack code x) (h' : ReadsBack code' x') :
    ReadsBack (fun field : α × β => code field.1 ++ code' field.2) (x, x') := by
  intro y rest rest' htext
  simp only [List.append_assoc] at htext
  obtain ⟨hfirst, htail⟩ := h y.1 _ _ htext
  obtain ⟨hsecond, hrest⟩ := h' y.2 _ _ htail
  exact ⟨Prod.ext hfirst hsecond, hrest⟩

/-- A list of as many fields as the other. -/
theorem flatMap : ∀ {xs ys : List α} {rest rest' : List γ}, (∀ x ∈ xs, ReadsBack code x) →
    xs.length = ys.length → xs.flatMap code ++ rest = ys.flatMap code ++ rest' →
    xs = ys ∧ rest = rest'
  | [], [], _, _, _, _, h => ⟨rfl, h⟩
  | [], _ :: _, _, _, _, hlength, _ => nomatch hlength
  | _ :: _, [], _, _, _, hlength, _ => nomatch hlength
  | x :: xs, y :: ys, _, _, hcode, hlength, h => by
    rw [List.forall_mem_cons] at hcode
    simp only [List.flatMap_cons, List.append_assoc] at h
    obtain ⟨hhead, htext⟩ := hcode.1 y _ _ h
    obtain ⟨htail, hrest⟩ := flatMap hcode.2 (Nat.succ.inj hlength) htext
    exact ⟨congrArg₂ List.cons hhead htail, hrest⟩

theorem injective (h : ∀ x, ReadsBack code x) : Function.Injective code := by
  intro x y htext
  exact (h x y [] [] (by rw [List.append_nil, List.append_nil, htext])).1

end ReadsBack

/-! ## Numbers -/

/-- A number in decimal digits, closed by a mark that is no digit. -/
theorem readsBack_toDigits (mark : Char) (hmark : ¬mark.isDigit) (n : ℕ) :
    ReadsBack (fun n => Nat.toDigits 10 n ++ [mark]) n := by
  apply ReadsBack.closed (p := fun symbol : Char => symbol.isDigit) _ _ hmark
  · intro n m h
    rw [← Nat.ofDigitChars_ten_toDigits (n := n), h, Nat.ofDigitChars_ten_toDigits]
  · intro n symbol hsymbol
    exact Nat.isDigit_of_mem_toDigits (by omega) (by omega) hsymbol

end LanguageRuntime.Library
