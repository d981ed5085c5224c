import Hallo.Node
import Hallo.Token

/-!
The grammar of programs, as rules that derive a tree from a sequence of lexemes. The rules know
nothing of a reader: they say only which sequences spell which tree.
-/
namespace Hallo.Grammar

/-- A sign, and the operator it stands for. -/
inductive Additive : Lexeme → String → Prop where
  | plus : Additive (.mark .plus) "+"
  | minus : Additive (.mark .minus) "-"

/-- A sign of a product, and the operator it stands for. -/
inductive Multiplicative : Lexeme → String → Prop where
  | times : Multiplicative (.mark .star) "*"
  | over : Multiplicative (.mark .slash) "/"

/-- A keyword of comparison, and the comparison it stands for. -/
inductive Comparative : Lexeme → Comparison → Prop where
  | equals : Comparative (.keyword .equals) .equals
  | less : Comparative (.keyword .less) .less
  | greater : Comparative (.keyword .greater) .greater

/-- A literal, and the value it stands for. -/
inductive Denotes : Lexeme → Value → Prop where
  | integer (n : Nat) : Denotes (.integer n) (.integer n)
  | text (s : String) : Denotes (.text s) (.text s)
  | boolean (b : Bool) : Denotes (.boolean b) (.boolean b)

mutual

/-- A factor is a signed factor, a literal, an expression in parentheses, a variable or a call. -/
inductive Factor : List Lexeme → Node → Prop where
  | signed {l : Lexeme} {operator : String} {ts : List Lexeme} {t : Node} :
      Additive l operator → Factor ts t → Factor (l :: ts) (.unary operator t)
  | literal {l : Lexeme} {v : Value} : Denotes l v → Factor [l] (.literal v)
  | group {ts : List Lexeme} {t : Node} :
      Expression ts t → Factor (.mark .parenOpen :: (ts ++ [.mark .parenClose])) t
  | var (name : String) : Factor [.name name] (.var name)
  | call {ts : List Lexeme} {args : List Node} (name : String) :
      Arguments ts args → Factor (.name name :: ts) (.call name args)

/-- A product is a chain of factors, joined from left to right. -/
inductive Product : List Lexeme → Node → Prop where
  | factor {ts : List Lexeme} {t : Node} : Factor ts t → Product ts t
  | join {ts us : List Lexeme} {a b : Node} {l : Lexeme} {operator : String} :
      Product ts a → Multiplicative l operator → Factor us b →
        Product (ts ++ l :: us) (.binary a operator b)

/-- A term is a product, or two products compared. -/
inductive Term : List Lexeme → Node → Prop where
  | product {ts : List Lexeme} {t : Node} : Product ts t → Term ts t
  | compare {ts us : List Lexeme} {a b : Node} {l : Lexeme} {comparison : Comparison} :
      Product ts a → Comparative l comparison → Product us b →
        Term (ts ++ l :: us) (.compare a b comparison)

/-- An expression is a chain of terms, joined from left to right. -/
inductive Expression : List Lexeme → Node → Prop where
  | term {ts : List Lexeme} {t : Node} : Term ts t → Expression ts t
  | join {ts us : List Lexeme} {a b : Node} {l : Lexeme} {operator : String} :
      Expression ts a → Additive l operator → Term us b →
        Expression (ts ++ l :: us) (.binary a operator b)

/-- Arguments stand in parentheses, which may be empty. -/
inductive Arguments : List Lexeme → List Node → Prop where
  | none : Arguments [.mark .parenOpen, .mark .parenClose] []
  | some {ts : List Lexeme} {args : List Node} :
      Expressions ts args → Arguments (.mark .parenOpen :: (ts ++ [.mark .parenClose])) args

/-- At least one expression, with commas between neighbours. -/
inductive Expressions : List Lexeme → List Node → Prop where
  | last {ts : List Lexeme} {t : Node} : Expression ts t → Expressions ts [t]
  | more {ts us : List Lexeme} {t : Node} {args : List Node} :
      Expression ts t → Expressions us args → Expressions (ts ++ .mark .comma :: us) (t :: args)

end

/-- At least one name, with commas between neighbours. -/
inductive Names : List Lexeme → List String → Prop where
  | last (name : String) : Names [.name name] [name]
  | more {ts : List Lexeme} {names : List String} (name : String) :
      Names ts names → Names (.name name :: .mark .comma :: ts) (name :: names)

/-- Parameters stand in parentheses, which may be empty. -/
inductive Parameters : List Lexeme → List String → Prop where
  | none : Parameters [.mark .parenOpen, .mark .parenClose] []
  | some {ts : List Lexeme} {names : List String} :
      Names ts names → Parameters (.mark .parenOpen :: (ts ++ [.mark .parenClose])) names

mutual

/-- The seven kinds of statements. No parameter of a declaration is named twice. -/
inductive Statement : List Lexeme → Node → Prop where
  | assign {ts : List Lexeme} {v : Node} (target : String) :
      Expression ts v → Statement (.name target :: .mark .assign :: ts) (.assign target v)
  | call {ts : List Lexeme} {args : List Node} (name : String) :
      Arguments ts args → Statement (.name name :: ts) (.call name args)
  | branch {ts us : List Lexeme} {test body : Node} :
      Expression ts test → Block us body →
        Statement (.keyword .branch :: (ts ++ us)) (.branch test body)
  | loop {ts us : List Lexeme} {test body : Node} :
      Expression ts test → Block us body →
        Statement (.keyword .loop :: (ts ++ us)) (.loop test body)
  | declare {ts us : List Lexeme} {params : List String} {body : Node} (name : String) :
      Parameters ts params → params.Nodup → Block us body →
        Statement (.keyword .function :: .name name :: (ts ++ us)) (.declare name params body)
  | assignTo {ts : List Lexeme} {v : Node} (target : String) :
      Expression ts v →
        Statement (.keyword .assignTarget :: .name target :: .keyword .assignValue :: ts)
          (.assign target v)
  | giveBack {ts : List Lexeme} {v : Node} :
      Expression ts v → Statement (.keyword .giveBack :: ts) (.giveBack v)

/-- A block is a list of statements between its two keywords. -/
inductive Block : List Lexeme → Node → Prop where
  | block {ts : List Lexeme} {nodes : List Node} :
      Statements ts nodes →
        Block (.keyword .blockOpen :: (ts ++ [.keyword .blockClose])) (.block nodes)

/-- A list of statements may lack its first one. -/
inductive Statements : List Lexeme → List Node → Prop where
  | empty {ts : List Lexeme} {nodes : List Node} : Following ts nodes → Statements ts nodes
  | first {ts us : List Lexeme} {node : Node} {nodes : List Node} :
      Statement ts node → Following us nodes → Statements (ts ++ us) (node :: nodes)

/-- Further statements, each behind a line break, and perhaps a last line break. -/
inductive Following : List Lexeme → List Node → Prop where
  | done : Following [] []
  | lineBreak : Following [.mark .lineBreak] []
  | more {ts us : List Lexeme} {node : Node} {nodes : List Node} :
      Statement ts node → Following us nodes →
        Following (.mark .lineBreak :: (ts ++ us)) (node :: nodes)

end

/-- A program is a list of statements between greeting and farewell, and nothing else. -/
inductive Program : List Lexeme → List Node → Prop where
  | program {ts : List Lexeme} {nodes : List Node} :
      Statements ts nodes →
        Program (.keyword .greeting :: .mark .lineBreak ::
          (ts ++ [.keyword .farewell, .endOfInput])) nodes

end Hallo.Grammar
