import Hallo.Proofs.Arithmetic
import Hallo.Proofs.Grammar.Parse
import Mathlib.Data.List.Chain

/-!
Written arithmetic. Signs bind more tightly than products and quotients, and these more tightly than
sums and differences; operations that bind alike are taken from left to right. Parentheses stand
where this would join operands otherwise, and nowhere else. However the words are spaced, the
expression is read back as it was meant.
-/
namespace Hallo

namespace Sign

/-- How a sign is written. -/
def mark : Sign → Mark
  | .plus => .plus
  | .minus => .minus

/-- The name of a sign in program trees. -/
def operator : Sign → String
  | .plus => "+"
  | .minus => "-"

theorem additive (sign : Sign) : Grammar.Additive (.mark sign.mark) sign.operator := by
  cases sign <;> constructor

end Sign

namespace Operation

/-- How an operation is written. -/
def mark : Operation → Mark
  | .add => .plus
  | .subtract => .minus
  | .multiply => .star
  | .divide => .slash

/-- The name of an operation in program trees. -/
def operator : Operation → String
  | .add => "+"
  | .subtract => "-"
  | .multiply => "*"
  | .divide => "/"

/-- How tightly an operation binds. Signs would be at level two. -/
def level : Operation → Nat
  | .add | .subtract => 0
  | .multiply | .divide => 1

end Operation

namespace Arithmetic

/-- The words of written arithmetic. -/
inductive Word where
  | numeral (numeral : Numeral)
  | mark (mark : Mark)

namespace Word

/-- The characters of a word. -/
def written : Word → List Char
  | .numeral n => n.digits
  | .mark m => [m.char]

/-- What a word says. -/
def lexeme : Word → Lexeme
  | .numeral n => .integer n.value
  | .mark m => .mark m

/-- Words that need nothing between them: not two numerals. -/
def Apart : Word → Word → Prop
  | .numeral _, .numeral _ => False
  | _, _ => True

@[simp] theorem mark_apart (m : Mark) (word : Word) : Apart (.mark m) word := trivial

@[simp] theorem apart_mark (word : Word) (m : Mark) : Apart word (.mark m) := by
  cases word <;> trivial

end Word

/-- The words of an expression at a level. An operation that binds less tightly stands in
    parentheses, and so does one that binds alike where it is the right operand. -/
def words (level : Nat) : Arithmetic → List Word
  | .numeral n => [.numeral n]
  | .signed sign operand => .mark sign.mark :: operand.words 2
  | .binary left operation right =>
    let inner := left.words operation.level ++ .mark operation.mark ::
      right.words (operation.level + 1)
    if operation.level < level then .mark .parenOpen :: (inner ++ [.mark .parenClose]) else inner

/-- The program tree of an expression. -/
def node : Arithmetic → Node
  | .numeral n => .literal (.integer n.value)
  | .signed sign operand => .unary sign.operator operand.node
  | .binary left operation right => .binary left.node operation.operator right.node

/-- Nowhere do two numerals stand next to each other. -/
theorem isChain_words (e : Arithmetic) (level : Nat) : (e.words level).IsChain Word.Apart := by
  induction e generalizing level with
  | numeral n => exact .singleton _
  | signed sign operand ih => simp [words, List.isChain_cons, ih]
  | binary left operation right ihleft ihright =>
    rw [words]
    generalize hinner : left.words operation.level ++
      .mark operation.mark :: right.words (operation.level + 1) = inner
    have hchain : inner.IsChain Word.Apart := by
      rw [← hinner]
      simp [List.isChain_append, List.isChain_cons, ihleft, ihright]
    split
    · simp [List.isChain_append, List.isChain_cons, hchain]
    · exact hchain

section Derivation

open Grammar

variable {ts us : List Lexeme} {t a b : Node}

/-- What may stand at a level without parentheses. -/
def Derives : Nat → List Lexeme → Node → Prop
  | 0 => Expression
  | 1 => Product
  | _ => Factor

theorem Derives.product {level : Nat} (hderives : Derives (level + 1) ts t) : Product ts t := by
  cases level with
  | zero => exact hderives
  | succ level => exact .factor hderives

theorem Derives.expression {level : Nat} (hderives : Derives level ts t) : Expression ts t := by
  cases level with
  | zero => exact hderives
  | succ level => exact .term (.product hderives.product)

/-- What may stand at a level may stand at any level that binds less tightly. -/
theorem Derives.mono {level lower : Nat} (hle : lower ≤ level) (hderives : Derives level ts t) :
    Derives lower ts t := by
  match lower, level with
  | 0, _ => exact hderives.expression
  | 1, _ + 1 => exact hderives.product
  | _ + 2, _ + 2 => exact hderives

/-- Signs, numerals and parentheses may stand anywhere. -/
theorem derives_of_factor (hfactor : Factor ts t) (level : Nat) : Derives level ts t := by
  match level with
  | 0 => exact .term (.product (.factor hfactor))
  | 1 => exact .factor hfactor
  | _ + 2 => exact hfactor

/-- Operands are joined from left to right, so the right one has to bind more tightly. -/
theorem Derives.join (operation : Operation) (hleft : Derives operation.level ts a)
    (hright : Derives (operation.level + 1) us b) :
    Derives operation.level (ts ++ .mark operation.mark :: us)
      (.binary a operation.operator b) := by
  cases operation with
  | add => exact Expression.join hleft .plus (.product hright)
  | subtract => exact Expression.join hleft .minus (.product hright)
  | multiply => exact Product.join hleft .times hright
  | divide => exact Product.join hleft .over hright

theorem derives (e : Arithmetic) (level : Nat) :
    Derives level ((e.words level).map Word.lexeme) e.node := by
  induction e generalizing level with
  | numeral n => exact derives_of_factor (.literal (.integer n.value)) level
  | signed sign operand ih => exact derives_of_factor (.signed sign.additive (ih 2)) level
  | binary left operation right ihleft ihright =>
    have hjoin := Derives.join operation (ihleft operation.level) (ihright (operation.level + 1))
    rw [words]
    split
    · have hgroup := derives_of_factor (.group hjoin.expression) level
      simpa [Word.lexeme, node] using hgroup
    · rename_i hlevel
      simpa [Word.lexeme, node] using hjoin.mono (Nat.not_lt.1 hlevel)

end Derivation

namespace Word

theorem first (word : Word) {more : List Char}
    (hmore : ∀ n, word = .numeral n → ∀ c ∈ more.head?, c.isDigit = false) :
    Bite.first (word.written ++ more) = ⟨.ok word.lexeme, word.written.length⟩ := by
  cases word with
  | numeral n => exact n.first (hmore n rfl)
  | mark m => exact Bite.first_mark m more

theorem lexeme_ne_endOfInput (word : Word) : word.lexeme ≠ .endOfInput := by
  cases word <;> exact nofun

end Word

section Spelling

variable {layout : Layout} {ws : List Word} {more rest : List Char} {l : Lexeme} {ls : List Lexeme}

/-- Behind a numeral nothing goes on with digits: a space comes next, or a mark, or what stands
    behind the words. -/
theorem not_isDigit_of_apart {n : Numeral} (hpieces : layout.pieces = ws.map Word.written)
    (hapart : (Word.numeral n :: ws).IsChain Word.Apart)
    (hmore : ∀ c ∈ more.head?, c.isDigit = false) :
    ∀ c ∈ (layout.text ++ more).head?, c.isDigit = false := by
  have hspaces : ∀ (spaces : Nat) {others : List Char}, (∀ c ∈ others.head?, c.isDigit = false) →
      ∀ c ∈ (List.replicate spaces ' ' ++ others).head?, c.isDigit = false := by
    intro spaces others hothers
    cases spaces with
    | zero => exact hothers
    | succ spaces =>
      rintro _ ⟨⟩
      rfl
  cases ws with
  | nil =>
    obtain ⟨spaces, rfl⟩ := Layout.exists_of_pieces_eq_nil hpieces
    exact hspaces spaces hmore
  | cons word ws =>
    obtain ⟨spaces, others, rfl, _⟩ := Layout.exists_of_pieces_eq_cons hpieces
    rw [Layout.text, List.append_assoc]
    refine hspaces spaces ?_
    cases word with
    | numeral next => exact ((List.isChain_cons_cons.1 hapart).1).elim
    | mark m =>
      rintro _ ⟨⟩
      cases m <;> rfl

/-- However the words are spaced, they are found as they were written. -/
theorem spells_words (hpieces : layout.pieces = ws.map Word.written)
    (hapart : ws.IsChain Word.Apart) (hmore : ∀ c ∈ more.head?, c.isDigit = false)
    (hothers : Spells more (l :: ls) rest) :
    Spells (layout.text ++ more) (ws.map Word.lexeme ++ l :: ls) rest := by
  induction ws generalizing layout with
  | nil =>
    obtain ⟨spaces, rfl⟩ := Layout.exists_of_pieces_eq_nil hpieces
    exact hothers.spaces spaces
  | cons word ws ih =>
    obtain ⟨spaces, others, rfl, hnext⟩ := Layout.exists_of_pieces_eq_cons hpieces
    rw [Layout.text, List.append_assoc, List.append_assoc]
    refine .piece (word.first fun n hword => ?_) word.lexeme_ne_endOfInput
      (ih hnext hapart.tail) spaces
    exact not_isDigit_of_apart hnext (hword ▸ hapart) hmore

end Spelling

/-- A program that gives a variable the value of what is written. -/
def program (written : List Char) : String :=
  "hallo\nx = " ++ String.ofList written ++ "\nreicht dann auch mal"

theorem spells_program {layout : Layout} {ws : List Word}
    (hpieces : layout.pieces = ws.map Word.written) (hapart : ws.IsChain Word.Apart) :
    Spells (program layout.text).toList
      (.keyword .greeting :: .mark .lineBreak :: .name "x" :: .mark .assign ::
        (ws.map Word.lexeme ++ [.mark .lineBreak, .keyword .farewell])) [] := by
  have htext : (program layout.text).toList = Keyword.greeting.text.toList ++ Mark.lineBreak.char ::
      ("x".toList ++ ' ' :: Mark.assign.char :: ' ' ::
        (layout.text ++ Mark.lineBreak.char :: (Keyword.farewell.text.toList ++ []))) := by
    simp [program, Keyword.text, Mark.char]
  rw [htext]
  have hfarewell : Spells (Mark.lineBreak.char :: (Keyword.farewell.text.toList ++ []))
      [.mark .lineBreak, .keyword .farewell] [] :=
    (Spells.mark .lineBreak).append (.keyword .farewell)
  have hwords := spells_words hpieces hapart (by simp [Mark.char]) hfarewell
  obtain ⟨l, ls, hls⟩ : ∃ l ls, ws.map Word.lexeme ++ [.mark .lineBreak, .keyword .farewell] =
      l :: ls :=
    List.exists_cons_of_ne_nil (by simp)
  rw [hls] at hwords ⊢
  have hassign : Spells _ (.mark .assign :: l :: ls) [] := (Spells.mark .assign).append hwords.space
  have hx : IsName "x" := ⟨'x', [], rfl, by decide, rfl, nofun, fun k => by cases k <;> decide⟩
  have hname : Spells _ (.name "x" :: .mark .assign :: l :: ls) [] :=
    (Spells.name hx (by decide) (by simp [Bite.Breaks, Mark.char])).append hassign.space
  exact (Spells.keyword .greeting).append ((Spells.mark .lineBreak).append hname)

/-- Written arithmetic is read as it was meant. -/
theorem parse_program (e : Arithmetic) {layout : Layout}
    (hpieces : layout.pieces = (e.words 0).map Word.written) :
    Node.parse (program layout.text) = .ok [.assign "x" e.node] := by
  obtain ⟨hending, hlexemes⟩ := Scan.lexemes_of_spells (spells_program hpieces (e.isChain_words 0))
  refine Node.parse_eq_ok_iff_program.2 ⟨hending, ?_⟩
  have hstatement := Grammar.Statement.assign "x" (e.derives 0)
  have hprogram := Grammar.Program.program (.first hstatement .lineBreak)
  rw [hlexemes]
  simpa using hprogram

end Arithmetic

end Hallo
