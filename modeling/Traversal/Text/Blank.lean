import Traversal.Text.Segments

namespace Traversal.Text

/-- The white space of Unicode. -/
def isBlank (c : Char) : Bool :=
  let n := c.toNat
  (9 ≤ n && n ≤ 13) || n == 0x20 || n == 0x85 || n == 0xA0 || n == 0x1680 ||
    (0x2000 ≤ n && n ≤ 0x200A) || n == 0x2028 || n == 0x2029 || n == 0x202F || n == 0x205F ||
    n == 0x3000

/-- Drops white space at both ends. -/
def trim (cs : List Char) : List Char :=
  ((cs.dropWhile isBlank).reverse.dropWhile isBlank).reverse

/-- The longest stretches without white space. -/
def words (cs : List Char) : List (List Char) :=
  (segments isBlank cs).filter (!·.isEmpty)

theorem words_append_cons (s l : List Char) {c : Char} (hc : isBlank c = true) :
    words (s ++ c :: l) = words s ++ words l := by
  simp only [words, segments_append_cons s l hc, List.filter_append]

theorem words_eq_self {w : List Char} (hw : ∀ c ∈ w, isBlank c = false) (hn : w ≠ []) :
    words w = [w] := by
  simp [words, segments_eq_self hw, hn]

end Traversal.Text
