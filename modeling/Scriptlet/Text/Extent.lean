/-!
# Extents of Text

How far a piece of text reaches: in bytes of its UTF-8 form, and in lines. Both
measures are sums over the characters, so they split along `++`, and whoever
moves over a text piece by piece ends where moving over it at once would.

A number of bytes divides a text into what it takes and what it drops. If the
number is the width of a piece in front, then that piece is taken and nothing
else is.

## Main definitions

* `width`: Bytes of the UTF-8 form.
* `breaks`: Line breaks.
* `takeBytes`, `dropBytes`: A text up to a number of bytes, and from there on.

## Theorems

* `width_append`, `breaks_append`: Both measures add up.
* `takeBytes_width`, `dropBytes_width`: The width of a piece in front divides a
  text behind it.
* `length_dropBytes_lt`: To drop bytes leaves less.
-/

namespace Scriptlet.Text

/-- The number of bytes of the UTF-8 form. -/
def width : List Char → Nat
  | [] => 0
  | c :: rest => c.utf8Size + width rest

/-- The number of line breaks. -/
def breaks : List Char → Nat
  | [] => 0
  | c :: rest => (if c = '\n' then 1 else 0) + breaks rest

/-- The characters that start among the first bytes of a text. -/
def takeBytes : Nat → List Char → List Char
  | 0, _ => []
  | _ + 1, [] => []
  | n + 1, c :: rest => c :: takeBytes (n + 1 - c.utf8Size) rest

/-- The characters that start behind the first bytes of a text. -/
def dropBytes : Nat → List Char → List Char
  | 0, text => text
  | _ + 1, [] => []
  | n + 1, c :: rest => dropBytes (n + 1 - c.utf8Size) rest

@[simp]
theorem width_append (a b : List Char) : width (a ++ b) = width a + width b := by
  induction a with
  | nil => simp [width]
  | cons c rest ih => simp [width, ih, Nat.add_assoc]

@[simp]
theorem breaks_append (a b : List Char) : breaks (a ++ b) = breaks a + breaks b := by
  induction a with
  | nil => simp [breaks]
  | cons c rest ih => simp [breaks, ih, Nat.add_assoc]

/-! ### Dividing by bytes -/

/-- A character has a first byte. -/
theorem utf8Size_add (c : Char) (n : Nat) : c.utf8Size + n = (c.utf8Size + n - 1) + 1 := by
  have hpos := c.utf8Size_pos
  omega

theorem takeBytes_cons (c : Char) (n : Nat) (rest : List Char) :
    takeBytes (c.utf8Size + n) (c :: rest) = c :: takeBytes n rest := by
  rw [utf8Size_add, takeBytes, ← utf8Size_add, Nat.add_sub_cancel_left]

theorem dropBytes_cons (c : Char) (n : Nat) (rest : List Char) :
    dropBytes (c.utf8Size + n) (c :: rest) = dropBytes n rest := by
  rw [utf8Size_add, dropBytes, ← utf8Size_add, Nat.add_sub_cancel_left]

theorem takeBytes_width (a b : List Char) : takeBytes (width a) (a ++ b) = a := by
  induction a with
  | nil => rw [width, takeBytes]
  | cons c rest ih => rw [width, List.cons_append, takeBytes_cons, ih]

theorem dropBytes_width (a b : List Char) : dropBytes (width a) (a ++ b) = b := by
  induction a with
  | nil => rw [width, dropBytes, List.nil_append]
  | cons c rest ih => rw [width, List.cons_append, dropBytes_cons, ih]

theorem length_dropBytes_le (n : Nat) (text : List Char) :
    (dropBytes n text).length ≤ text.length := by
  fun_induction dropBytes n text with
  | case1 text => exact Nat.le_refl _
  | case2 n => exact Nat.le_refl _
  | case3 n c rest ih => exact Nat.le_succ_of_le ih

/-- To drop bytes of a text that has some leaves less of it. -/
theorem length_dropBytes_lt {n : Nat} (hn : 0 < n) (c : Char) (rest : List Char) :
    (dropBytes n (c :: rest)).length < (c :: rest).length := by
  cases n with
  | zero => exact absurd hn (Nat.lt_irrefl 0)
  | succ n =>
    rw [dropBytes]
    exact Nat.lt_succ_of_le (length_dropBytes_le _ rest)

end Scriptlet.Text
