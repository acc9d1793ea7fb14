import Traversal.Json.Node

namespace Traversal.Json

/-- White space in front of a text. Here and below, the first text starts with what is described,
and the second follows it. -/
inductive Gap : List Char → List Char → Prop where
  | nil (rest : List Char) : Gap rest rest
  | cons {c : Char} {cs rest : List Char} : isSpace c = true → Gap cs rest → Gap (c :: cs) rest

/-- The inside of a string, with the closing quote. -/
inductive StringText : List Piece → List Char → List Char → Prop where
  | close (rest : List Char) : StringText [] ('"' :: rest) rest
  | plain {c : Char} {ps : List Piece} {cs rest : List Char} :
    c ≠ '"' → c ≠ '\\' → 0x20 ≤ c.toNat → StringText ps cs rest →
      StringText (.char c :: ps) (c :: cs) rest
  | short {e c : Char} {ps : List Piece} {cs rest : List Char} :
    escape? e = some c → StringText ps cs rest → StringText (.char c :: ps) ('\\' :: e :: cs) rest
  | unit {a b c d : Char} {n : Nat} {ps : List Piece} {cs rest : List Char} :
    unit? a b c d = some n → StringText ps cs rest →
      StringText (.unit n :: ps) ('\\' :: 'u' :: a :: b :: c :: d :: cs) rest

/-- One digit or more. -/
def IsDigits (ds : List Char) : Prop :=
  ds ≠ [] ∧ ∀ c ∈ ds, c.isDigit = true

/-- Digits without a leading zero, or a single zero. -/
def IsWhole (ds : List Char) : Prop :=
  IsDigits ds ∧ (ds.head? = some '0' → ds = ['0'])

inductive FractionText : List Char → List Char → List Char → Prop where
  | none (rest : List Char) : FractionText [] rest rest
  | some {ds : List Char} : IsDigits ds → ∀ rest, FractionText ds ('.' :: (ds ++ rest)) rest

inductive ExponentText : Option (Bool × List Char) → List Char → List Char → Prop where
  | none (rest : List Char) : ExponentText none rest rest
  | some {mark : Char} {negative : Bool} {sign ds : List Char} : mark ∈ ['e', 'E'] →
    (negative, sign) ∈ [(false, []), (false, ['+']), (true, ['-'])] → IsDigits ds →
      ∀ rest, ExponentText (some (negative, ds)) (mark :: (sign ++ (ds ++ rest))) rest

inductive NumeralText : Numeral → List Char → List Char → Prop where
  | intro {negative : Bool} {sign whole fraction cs cs' rest : List Char}
    {exponent : Option (Bool × List Char)} : (negative, sign) ∈ [(false, []), (true, ['-'])] →
    IsWhole whole → FractionText fraction cs cs' → ExponentText exponent cs' rest →
      NumeralText ⟨negative, whole, fraction, exponent⟩ (sign ++ (whole ++ cs)) rest

/-- What a part of a JSON text stands for. -/
inductive Form where
  | value (n : Node)
  /-- A value between white space. -/
  | element (n : Node)
  | elements (ns : List Node)
  | member (m : List Piece × Node)
  | members (ms : List (List Piece × Node))

/-- The grammar of JSON. -/
inductive Derives : Form → List Char → List Char → Prop where
  | null (rest : List Char) : Derives (.value .null) ('n' :: 'u' :: 'l' :: 'l' :: rest) rest
  | boolFalse (rest : List Char) :
    Derives (.value (.bool false)) ('f' :: 'a' :: 'l' :: 's' :: 'e' :: rest) rest
  | boolTrue (rest : List Char) :
    Derives (.value (.bool true)) ('t' :: 'r' :: 'u' :: 'e' :: rest) rest
  | number {n : Numeral} {cs rest : List Char} :
    NumeralText n cs rest → Derives (.value (.number n)) cs rest
  | string {ps : List Piece} {cs rest : List Char} :
    StringText ps cs rest → Derives (.value (.string ps)) ('"' :: cs) rest
  | emptyArray {cs rest : List Char} :
    Gap cs (']' :: rest) → Derives (.value (.array [] true)) ('[' :: cs) rest
  | array {ns : List Node} {cs rest : List Char} :
    Derives (.elements ns) cs (']' :: rest) → Derives (.value (.array ns true)) ('[' :: cs) rest
  | emptyObject {cs rest : List Char} :
    Gap cs ('\x7d' :: rest) → Derives (.value (.object [] true)) ('\x7b' :: cs) rest
  | object {ms : List (List Piece × Node)} {cs rest : List Char} :
    Derives (.members ms) cs ('\x7d' :: rest) →
      Derives (.value (.object ms true)) ('\x7b' :: cs) rest
  | element {n : Node} {cs cs₁ cs₂ rest : List Char} :
    Gap cs cs₁ → Derives (.value n) cs₁ cs₂ → Gap cs₂ rest → Derives (.element n) cs rest
  | lastElement {n : Node} {cs rest : List Char} :
    Derives (.element n) cs rest → Derives (.elements [n]) cs rest
  | moreElements {n : Node} {ns : List Node} {cs cs' rest : List Char} :
    Derives (.element n) cs (',' :: cs') → Derives (.elements ns) cs' rest →
      Derives (.elements (n :: ns)) cs rest
  | member {key : List Piece} {n : Node} {cs cs₁ cs₂ cs₃ rest : List Char} :
    Gap cs ('"' :: cs₁) → StringText key cs₁ cs₂ → Gap cs₂ (':' :: cs₃) →
    Derives (.element n) cs₃ rest → Derives (.member (key, n)) cs rest
  | lastMember {m : List Piece × Node} {cs rest : List Char} :
    Derives (.member m) cs rest → Derives (.members [m]) cs rest
  | moreMembers {m : List Piece × Node} {ms : List (List Piece × Node)} {cs cs' rest : List Char} :
    Derives (.member m) cs (',' :: cs') → Derives (.members ms) cs' rest →
      Derives (.members (m :: ms)) cs rest

/-- `cs` is a JSON text of the value. -/
def IsText (n : Node) (cs : List Char) : Prop :=
  Derives (.element n) cs []

end Traversal.Json
