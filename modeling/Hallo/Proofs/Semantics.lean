import Hallo.Evaluator
import Hallo.Proofs.Value.Order

/-!
The meaning of programs, without an evaluator. Rules relate a tree and the scene it is evaluated
in to what it comes to, to what can be noticed meanwhile, and to the scene it leaves behind.
Nothing is said about how long loops go on; only calls inside each other are counted.
-/
namespace Hallo

/-- What an evaluation can read and change: the frame it runs in and the answers to come. -/
structure Scene where
  frame : Frame
  answers : List (Option String)
  deriving DecidableEq, Repr

namespace Semantics

/-- Signs before a number. -/
inductive Signed : String → Int → Except Fault Value → Prop where
  | plus (k : Int) : Signed "+" k (.ok (.integer k))
  | minus (k : Int) : Signed "-" k (.ok (.integer (-k)))
  | invalid {operator : String} (hplus : operator ≠ "+") (hminus : operator ≠ "-") (k : Int) :
      Signed operator k (.error (.violation (.invalidUnary operator)))

/-- Operations on two numbers. Division rounds toward zero. -/
inductive Arithmetic : String → Int → Int → Except Fault Value → Prop where
  | plus (j k : Int) : Arithmetic "+" j k (.ok (.integer (j + k)))
  | minus (j k : Int) : Arithmetic "-" j k (.ok (.integer (j - k)))
  | times (j k : Int) : Arithmetic "*" j k (.ok (.integer (j * k)))
  | divided {j k : Int} (hzero : k ≠ 0) : Arithmetic "/" j k (.ok (.integer (j.tdiv k)))
  | dividedByZero (j : Int) : Arithmetic "/" j 0 (.error (.violation .divisionByZero))
  | invalid {operator : String} (hoperator : operator ∉ ["+", "-", "*", "/"]) (j k : Int) :
      Arithmetic operator j k (.error (.violation (.invalidBinary operator)))

/-- Comparisons of two values. Only values of one kind have an order. -/
inductive Compared : Comparison → Value → Value → Except Fault Value → Prop where
  | equals (a b : Value) : Compared .equals a b (.ok (.boolean (a = b)))
  | less {a b : Value} {holds : Bool} (hkind : a.kind = b.kind)
      (hholds : holds = true ↔ a.Below b) :
      Compared .less a b (.ok (.boolean holds))
  | greater {a b : Value} {holds : Bool} (hkind : a.kind = b.kind)
      (hholds : holds = true ↔ b.Below a) : Compared .greater a b (.ok (.boolean holds))
  | unordered {comparison : Comparison} {a b : Value} (horder : comparison ≠ .equals)
      (hkind : a.kind ≠ b.kind) :
      Compared comparison a b (.error (.violation (.cannotOrder a.kind b.kind)))

/-- Values that can be operands. -/
inductive IsNumber : Value → Except Fault Int → Prop where
  | integer (k : Int) : IsNumber (.integer k) (.ok k)
  | other {v : Value} (hkind : v.kind ≠ .integer) : IsNumber v (.error (.violation (.notANumber v)))

/-- Values that can be conditions. -/
inductive IsCondition (keyword : Keyword) : Value → Except Fault Bool → Prop where
  | boolean (b : Bool) : IsCondition keyword (.boolean b) (.ok b)
  | other {v : Value} (hkind : v.kind ≠ .boolean) :
      IsCondition keyword v (.error (.violation (.notACondition keyword v.kind)))

/-- How values are displayed. An integer of more than 4300 digits is not. -/
inductive Displayed : Value → Except Fault String → Prop where
  | integer {k : Int} (hshort : (Nat.toDigits 10 k.natAbs).length ≤ 4300) :
      Displayed (.integer k) (.ok (toString k))
  | longInteger {k : Int} (hlong : 4300 < (Nat.toDigits 10 k.natAbs).length) :
      Displayed (.integer k) (.error (.unwritable .longInteger))
  | text (s : String) : Displayed (.text s) (.ok s)
  | true : Displayed (.boolean true) (.ok ":)")
  | false : Displayed (.boolean false) (.ok ":(")
  | nothing : Displayed .nothing (.ok "-")

/-- Variables with one name bound anew: a name that was there keeps its place, a new one comes
    last. -/
inductive Bound (name : String) (value : Value) :
    List (String × Value) → List (String × Value) → Prop where
  | known {front rest : List (String × Value)} (hfront : name ∉ front.map Prod.fst) (old : Value) :
      Bound name value (front ++ (name, old) :: rest) (front ++ (name, value) :: rest)
  | new {table : List (String × Value)} (htable : name ∉ table.map Prod.fst) :
      Bound name value table (table ++ [(name, value)])

/-- Variables with some names bound anew, one after another. -/
inductive BoundAll :
    List (String × Value) → List (String × Value) → List (String × Value) → Prop where
  | nil {table : List (String × Value)} : BoundAll [] table table
  | next {name : String} {value : Value} {pairs table table' table'' : List (String × Value)}
      (hfirst : Bound name value table table') (hothers : BoundAll pairs table' table'') :
      BoundAll ((name, value) :: pairs) table table''

/-- The variables of a call: exactly the parameters, each with its argument. Parameters that are
    not distinct, as in a declaration that was built by hand, are bound one after another. -/
inductive Receives (params : List String) (values : List Value) : List (String × Value) → Prop where
  | distinct (hdistinct : params.Nodup) : Receives params values (params.zip values)
  | repeated {table : List (String × Value)} (hrepeated : ¬ params.Nodup)
      (hbound : BoundAll (params.zip values) [] table) : Receives params values table

/-- Names of output forms are longer the louder they are. -/
def Shouts (callee : String) (intensity : Int) : Prop :=
  ∃ louder : String, callee = ":O__" ++ louder ∧ intensity = louder.length + 1

/-- Names that can stand for declared functions: neither output forms nor the input form. -/
def Ordinary (callee : String) : Prop :=
  (∀ intensity, ¬ Shouts callee intensity) ∧ callee ≠ "frag"

/-- A result on which the statements behind are not run: a return on its way, or a fault. -/
inductive Leaves : Except Fault Outcome → Prop where
  | returning (v : Value) : Leaves (.ok (.returning v))
  | failed (fault : Fault) : Leaves (.error fault)

mutual

/-- A tree comes to a value, to a return on its way or to a fault, with at most so many calls inside
    each other. -/
inductive Evaluates : Nat → Node → Scene → Except Fault Outcome → List Event → Scene → Prop where
  | bare {n : Nat} {s : Scene} :
      Evaluates n .bare s (.error (.violation (.cannotEvaluate .bare))) [] s
  | empty {n : Nat} {s : Scene} : Evaluates n .empty s (.ok (.value .nothing)) [] s
  | literal {n : Nat} {s : Scene} {v : Value} : Evaluates n (.literal v) s (.ok (.value v)) [] s
  | var {n : Nat} {s : Scene} {name : String} {v : Value}
      (hvalue : s.frame.bindings.lookup name = some v) :
      Evaluates n (.var name) s (.ok (.value v)) [] s
  | unknownVariable {n : Nat} {s : Scene} {name : String}
      (hnone : s.frame.bindings.lookup name = none) :
      Evaluates n (.var name) s (.error (.violation (.unknownVariable name))) [] s
  | block {n : Nat} {s s' : Scene} {statements : List Node} {r : Except Fault Outcome}
      {story : List Event} (hruns : Runs n statements s r story s') :
      Evaluates n (.block statements) s r story s'
  | unary {n : Nat} {s s' : Scene} {operator : String} {operand : Node} {k : Int}
      {r : Except Fault Value} {story : List Event}
      (hoperand : Operand n operand s (.ok k) story s')
      (hsigned : Signed operator k r) :
      Evaluates n (.unary operator operand) s (r.map .value) story s'
  | unaryFailed {n : Nat} {s s' : Scene} {operator : String} {operand : Node} {fault : Fault}
      {story : List Event} (hoperand : Operand n operand s (.error fault) story s') :
      Evaluates n (.unary operator operand) s (.error fault) story s'
  | binary {n : Nat} {s s' s'' : Scene} {left right : Node} {operator : String} {j k : Int}
      {r : Except Fault Value} {story story' : List Event}
      (hleft : Operand n left s (.ok j) story s') (hright : Operand n right s' (.ok k) story' s'')
      (hresult : Arithmetic operator j k r) :
      Evaluates n (.binary left operator right) s (r.map .value) (story ++ story') s''
  | leftFailed {n : Nat} {s s' : Scene} {left right : Node} {operator : String} {fault : Fault}
      {story : List Event} (hleft : Operand n left s (.error fault) story s') :
      Evaluates n (.binary left operator right) s (.error fault) story s'
  | rightFailed {n : Nat} {s s' s'' : Scene} {left right : Node} {operator : String} {j : Int}
      {fault : Fault} {story story' : List Event} (hleft : Operand n left s (.ok j) story s')
      (hright : Operand n right s' (.error fault) story' s'') :
      Evaluates n (.binary left operator right) s (.error fault) (story ++ story') s''
  | compare {n : Nat} {s s' s'' : Scene} {left right : Node} {comparison : Comparison}
      {a b : Outcome} {r : Except Fault Value} {story story' : List Event}
      (hleft : Evaluates n left s (.ok a) story s')
      (hright : Evaluates n right s' (.ok b) story' s'')
      (hresult : Compared comparison a.get b.get r) :
      Evaluates n (.compare left right comparison) s (r.map .value) (story ++ story') s''
  | comparedLeftFailed {n : Nat} {s s' : Scene} {left right : Node} {comparison : Comparison}
      {fault : Fault} {story : List Event} (hleft : Evaluates n left s (.error fault) story s') :
      Evaluates n (.compare left right comparison) s (.error fault) story s'
  | comparedRightFailed {n : Nat} {s s' s'' : Scene} {left right : Node} {comparison : Comparison}
      {a : Outcome} {fault : Fault} {story story' : List Event}
      (hleft : Evaluates n left s (.ok a) story s')
      (hright : Evaluates n right s' (.error fault) story' s'') :
      Evaluates n (.compare left right comparison) s (.error fault) (story ++ story') s''
  | output {n : Nat} {s s' : Scene} {callee text : String} {intensity : Int} {args : List Node}
      {story : List Event} (hname : Shouts callee intensity)
      (hargs : Renders n args s (.ok text) story s') :
      Evaluates n (.call callee args) s (.ok (.value .nothing))
        (story ++ [.shout intensity text text]) s'
  | outputFailed {n : Nat} {s s' : Scene} {callee : String} {intensity : Int} {args : List Node}
      {fault : Fault} {story : List Event} (hname : Shouts callee intensity)
      (hargs : Renders n args s (.error fault) story s') :
      Evaluates n (.call callee args) s (.error fault) story s'
  | input {n : Nat} {s s' : Scene} {prompt : String} {args : List Node} {v : Value}
      {story : List Event} (hargs : Renders n args s (.ok prompt) story s')
      (hanswer : Value.ofAnswer (s'.answers.head?.join.getD "") = .ok v) :
      Evaluates n (.call "frag" args) s (.ok (.value v))
        (story ++ [.question .program prompt s'.answers.head?.join])
        { s' with answers := s'.answers.tail }
  | inputRefused {n : Nat} {s s' : Scene} {prompt : String} {args : List Node} {error : ParseError}
      {story : List Event} (hargs : Renders n args s (.ok prompt) story s')
      (hanswer : Value.ofAnswer (s'.answers.head?.join.getD "") = .error error) :
      Evaluates n (.call "frag" args) s (.error (.parse error))
        (story ++ [.question .program prompt s'.answers.head?.join])
        { s' with answers := s'.answers.tail }
  | inputFailed {n : Nat} {s s' : Scene} {args : List Node} {fault : Fault} {story : List Event}
      (hargs : Renders n args s (.error fault) story s') :
      Evaluates n (.call "frag" args) s (.error fault) story s'
  | unknownFunction {n : Nat} {s : Scene} {callee : String} {args : List Node}
      (hname : Ordinary callee) (hnone : s.frame.functions.find? (·.name = callee) = none) :
      Evaluates n (.call callee args) s (.error (.violation (.unknownFunction callee))) [] s
  | argumentCount {n : Nat} {s : Scene} {callee : String} {args : List Node} {routine : Routine}
      (hname : Ordinary callee)
      (hroutine : s.frame.functions.find? (·.name = callee) = some routine)
      (hcount : routine.params.length ≠ args.length) :
      Evaluates n (.call callee args) s
        (.error (.violation (.argumentCount callee routine.params.length args.length))) [] s
  | argumentFailed {n : Nat} {s s' : Scene} {callee : String} {args : List Node} {routine : Routine}
      {fault : Fault} {story : List Event} (hname : Ordinary callee)
      (hroutine : s.frame.functions.find? (·.name = callee) = some routine)
      (hcount : routine.params.length = args.length)
      (hargs : Values n args s (.error fault) story s') :
      Evaluates n (.call callee args) s (.error fault) story s'
  | call {n : Nat} {s s' inner : Scene} {callee : String} {args : List Node} {routine : Routine}
      {values : List Value} {table : List (String × Value)} {r : Except Fault Outcome}
      {story story' : List Event}
      (hname : Ordinary callee)
      (hroutine : s.frame.functions.find? (·.name = callee) = some routine)
      (hcount : routine.params.length = args.length)
      (hargs : Values (n + 1) args s (.ok values) story s')
      (htable : Receives routine.params values table)
      (hbody : Evaluates n routine.body
        ⟨{ bindings := table, functions := s'.frame.functions }, s'.answers⟩ r story' inner) :
      Evaluates (n + 1) (.call callee args) s (r.map fun outcome => .value outcome.get)
        (story ++ story') ⟨s'.frame, inner.answers⟩
  | assign {n : Nat} {s s' : Scene} {target : String} {value : Node} {o : Outcome}
      {table : List (String × Value)} {story : List Event}
      (hvalue : Evaluates n value s (.ok o) story s')
      (htable : Bound target o.get s'.frame.bindings table) :
      Evaluates n (.assign target value) s (.ok (.value .nothing)) story
        { s' with frame.bindings := table }
  | assignFailed {n : Nat} {s s' : Scene} {target : String} {value : Node} {fault : Fault}
      {story : List Event} (hvalue : Evaluates n value s (.error fault) story s') :
      Evaluates n (.assign target value) s (.error fault) story s'
  | declare {n : Nat} {s : Scene} {name : String} {params : List String} {body : Node}
      (hnone : s.frame.functions.find? (·.name = name) = none) :
      Evaluates n (.declare name params body) s (.ok (.value .nothing)) []
        { s with frame.functions := s.frame.functions ++ [⟨name, params, body⟩] }
  | alreadyDeclared {n : Nat} {s : Scene} {name : String} {params : List String} {body : Node}
      {routine : Routine} (hroutine : s.frame.functions.find? (·.name = name) = some routine) :
      Evaluates n (.declare name params body) s (.error (.violation (.alreadyDeclared name))) [] s
  | branchTaken {n : Nat} {s s' s'' : Scene} {test body : Node} {v : Value}
      {story story' : List Event}
      (htest : Condition n .branch test s (.ok true) story s')
      (hbody : Evaluates n body s' (.ok (.value v)) story' s'') :
      Evaluates n (.branch test body) s (.ok (.value .nothing)) (story ++ story') s''
  | branchLeft {n : Nat} {s s' s'' : Scene} {test body : Node} {r : Except Fault Outcome}
      {story story' : List Event} (htest : Condition n .branch test s (.ok true) story s')
      (hbody : Evaluates n body s' r story' s'') (hleaves : Leaves r) :
      Evaluates n (.branch test body) s r (story ++ story') s''
  | branchSkipped {n : Nat} {s s' : Scene} {test body : Node} {story : List Event}
      (htest : Condition n .branch test s (.ok false) story s') :
      Evaluates n (.branch test body) s (.ok (.value .nothing)) story s'
  | branchFailed {n : Nat} {s s' : Scene} {test body : Node} {fault : Fault} {story : List Event}
      (htest : Condition n .branch test s (.error fault) story s') :
      Evaluates n (.branch test body) s (.error fault) story s'
  | loopAgain {n : Nat} {s s' s'' last : Scene} {test body : Node} {v : Value}
      {r : Except Fault Outcome} {story story' story'' : List Event}
      (htest : Condition n .loop test s (.ok true) story s')
      (hbody : Evaluates n body s' (.ok (.value v)) story' s'')
      (hagain : Evaluates n (.loop test body) s'' r story'' last) :
      Evaluates n (.loop test body) s r (story ++ (story' ++ story'')) last
  | loopLeft {n : Nat} {s s' s'' : Scene} {test body : Node} {r : Except Fault Outcome}
      {story story' : List Event} (htest : Condition n .loop test s (.ok true) story s')
      (hbody : Evaluates n body s' r story' s'') (hleaves : Leaves r) :
      Evaluates n (.loop test body) s r (story ++ story') s''
  | loopDone {n : Nat} {s s' : Scene} {test body : Node} {story : List Event}
      (htest : Condition n .loop test s (.ok false) story s') :
      Evaluates n (.loop test body) s (.ok (.value .nothing)) story s'
  | loopFailed {n : Nat} {s s' : Scene} {test body : Node} {fault : Fault} {story : List Event}
      (htest : Condition n .loop test s (.error fault) story s') :
      Evaluates n (.loop test body) s (.error fault) story s'
  | giveBack {n : Nat} {s s' : Scene} {expression : Node} {r : Except Fault Outcome}
      {story : List Event} (hvalue : Evaluates n expression s r story s') :
      Evaluates n (.giveBack expression) s (r.map fun o => .returning o.get) story s'

/-- An operand is evaluated, and must be a number. -/
inductive Operand : Nat → Node → Scene → Except Fault Int → List Event → Scene → Prop where
  | checked {n : Nat} {s s' : Scene} {node : Node} {o : Outcome} {r : Except Fault Int}
      {story : List Event} (hvalue : Evaluates n node s (.ok o) story s')
      (hnumber : IsNumber o.get r) : Operand n node s r story s'
  | failed {n : Nat} {s s' : Scene} {node : Node} {fault : Fault} {story : List Event}
      (hvalue : Evaluates n node s (.error fault) story s') :
      Operand n node s (.error fault) story s'

/-- A condition is evaluated, and must be a boolean. -/
inductive Condition :
    Nat → Keyword → Node → Scene → Except Fault Bool → List Event → Scene → Prop where
  | checked {n : Nat} {s s' : Scene} {keyword : Keyword} {node : Node} {o : Outcome}
      {r : Except Fault Bool} {story : List Event} (hvalue : Evaluates n node s (.ok o) story s')
      (hcondition : IsCondition keyword o.get r) : Condition n keyword node s r story s'
  | failed {n : Nat} {s s' : Scene} {keyword : Keyword} {node : Node} {fault : Fault}
      {story : List Event} (hvalue : Evaluates n node s (.error fault) story s') :
      Condition n keyword node s (.error fault) story s'

/-- Statements are run in order, up to the first that leaves. -/
inductive Runs : Nat → List Node → Scene → Except Fault Outcome → List Event → Scene → Prop where
  | nil {n : Nat} {s : Scene} : Runs n [] s (.ok (.value .nothing)) [] s
  | next {n : Nat} {s s' s'' : Scene} {node : Node} {nodes : List Node} {v : Value}
      {r : Except Fault Outcome} {story story' : List Event}
      (hfirst : Evaluates n node s (.ok (.value v)) story s')
      (hothers : Runs n nodes s' r story' s'') :
      Runs n (node :: nodes) s r (story ++ story') s''
  | left {n : Nat} {s s' : Scene} {node : Node} {nodes : List Node} {r : Except Fault Outcome}
      {story : List Event} (hfirst : Evaluates n node s r story s') (hleaves : Leaves r) :
      Runs n (node :: nodes) s r story s'

/-- Arguments are evaluated from left to right. -/
inductive Values :
    Nat → List Node → Scene → Except Fault (List Value) → List Event → Scene → Prop where
  | nil {n : Nat} {s : Scene} : Values n [] s (.ok []) [] s
  | next {n : Nat} {s s' s'' : Scene} {node : Node} {nodes : List Node} {o : Outcome}
      {r : Except Fault (List Value)} {story story' : List Event}
      (hfirst : Evaluates n node s (.ok o) story s') (hothers : Values n nodes s' r story' s'') :
      Values n (node :: nodes) s (r.map (o.get :: ·)) (story ++ story') s''
  | failed {n : Nat} {s s' : Scene} {node : Node} {nodes : List Node} {fault : Fault}
      {story : List Event} (hfirst : Evaluates n node s (.error fault) story s') :
      Values n (node :: nodes) s (.error fault) story s'

/-- Arguments are displayed side by side, each before the next is evaluated. -/
inductive Renders : Nat → List Node → Scene → Except Fault String → List Event → Scene → Prop where
  | nil {n : Nat} {s : Scene} : Renders n [] s (.ok "") [] s
  | next {n : Nat} {s s' s'' : Scene} {node : Node} {nodes : List Node} {o : Outcome}
      {text : String} {r : Except Fault String} {story story' : List Event}
      (hfirst : Evaluates n node s (.ok o) story s') (htext : Displayed o.get (.ok text))
      (hothers : Renders n nodes s' r story' s'') :
      Renders n (node :: nodes) s (r.map (text ++ ·)) (story ++ story') s''
  | unwritable {n : Nat} {s s' : Scene} {node : Node} {nodes : List Node} {o : Outcome}
      {fault : Fault} {story : List Event} (hfirst : Evaluates n node s (.ok o) story s')
      (htext : Displayed o.get (.error fault)) :
      Renders n (node :: nodes) s (.error fault) story s'
  | failed {n : Nat} {s s' : Scene} {node : Node} {nodes : List Node} {fault : Fault}
      {story : List Event} (hfirst : Evaluates n node s (.error fault) story s') :
      Renders n (node :: nodes) s (.error fault) story s'

end

/-- A program is a block of statements. A return that no call has caught is reported. -/
inductive Ends : Nat → List Node → Scene → Except Fault Value → List Event → Scene → Prop where
  | value {n : Nat} {s s' : Scene} {nodes : List Node} {v : Value} {story : List Event}
      (hruns : Runs n nodes s (.ok (.value v)) story s') : Ends n nodes s (.ok v) story s'
  | thrown {n : Nat} {s s' : Scene} {nodes : List Node} {v : Value} {text : String}
      {story : List Event} (hruns : Runs n nodes s (.ok (.returning v)) story s')
      (htext : Displayed v (.ok text)) :
      Ends n nodes s (.ok v) (story ++ [.line ("[dmm] This program threw at us a: " ++ text)]) s'
  | unwritable {n : Nat} {s s' : Scene} {nodes : List Node} {v : Value} {fault : Fault}
      {story : List Event} (hruns : Runs n nodes s (.ok (.returning v)) story s')
      (htext : Displayed v (.error fault)) : Ends n nodes s (.error fault) story s'
  | failed {n : Nat} {s s' : Scene} {nodes : List Node} {fault : Fault} {story : List Event}
      (hruns : Runs n nodes s (.error fault) story s') : Ends n nodes s (.error fault) story s'

end Semantics

end Hallo
